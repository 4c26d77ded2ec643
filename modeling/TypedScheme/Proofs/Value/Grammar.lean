import TypedScheme.Proofs.Run
import TypedScheme.Value.Reader

/-!
# The grammar of quoted data

What a quoted datum stands for, as rules beside the reader of values.

## What this module delivers

- `Value.Denoted d v`, the rules, with `Value.DenotedAll` for data in a row.
- `Value.denoted_of_ofDatum` and `Value.Denoted.ofDatum_eq`: the reader gives exactly the values that the
  rules give.
-/

set_option autoImplicit false

namespace TypedScheme

/-- A number has a value exactly if its text is a numeral. -/
theorem Token.numberValue_eq_ok_iff {t : Token} {n : Binary64} :
    t.numberValue = .ok n ↔ Numeral.read? t.text = some n := by
  cases h : Numeral.read? t.text <;> simp [numberValue, h]

/-- A string has a value exactly if its text can be decoded. -/
theorem Token.stringValue_eq_ok_iff {t : Token} {s : Text.Pieces} :
    t.stringValue = .ok s ↔ Text.Quoted.decode? t.text = some s := by
  cases h : Text.Quoted.decode? t.text <;> simp [stringValue, h]

namespace Value

/-- A token stands for a value by itself. -/
inductive DenotedAtom : Token → Value → Prop
  | number {t : Token} {n : Binary64} :
      t.kind = .number → Numeral.read? t.text = some n → DenotedAtom t (.number n)
  | boolean {t : Token} : t.kind = .boolean → DenotedAtom t (.boolean (Token.booleanValue t.text))
  | string {t : Token} {s : Text.Pieces} :
      t.kind = .string → Text.Quoted.decode? t.text = some s → DenotedAtom t (.string s)
  | symbol {t : Token} : t.kind = .symbol → DenotedAtom t (.symbol t.text)
  | colon {t : Token} : t.kind = .colon → DenotedAtom t (.symbol ":")

mutual

/-- A quoted datum stands for a value. -/
inductive Denoted : Datum → Value → Prop
  | atom {t : Token} {v : Value} : DenotedAtom t v → Denoted (.atom t) v
  | quoted {mark : Token} {d : Datum} {v : Value} :
      Denoted d v → Denoted (.quoted mark d) (ofList [.symbol "quote", v])
  | list {left right : Token} {ds : List Datum} {vs : List Value} :
      DenotedAll ds vs → Denoted (.list left ds right) (ofList vs)
  | dotted {left dot right : Token} {ds : List Datum} {tail : Datum} {vs : List Value} {last : Value} :
      DenotedAll ds vs → Denoted tail last →
      Denoted (.dotted left ds dot tail right) (onto vs last)

/-- Quoted data stand for values, one by one. -/
inductive DenotedAll : List Datum → List Value → Prop
  | nil : DenotedAll [] []
  | cons {d : Datum} {ds : List Datum} {v : Value} {vs : List Value} :
      Denoted d v → DenotedAll ds vs → DenotedAll (d :: ds) (v :: vs)

end

/-- The reader gives an atom exactly the value that it denotes. -/
theorem ofToken_eq_ok_iff {t : Token} {v : Value} : ofToken t = .ok v ↔ DenotedAtom t v := by
  constructor
  · intro h
    unfold ofToken at h
    split at h
    · next hkind =>
      -- Only the text of a number or of a string can still be refused.
      obtain ⟨n, hn, hv⟩ := bind_eq_ok_iff.1 h
      cases hv
      exact .number hkind (Token.numberValue_eq_ok_iff.1 hn)
    · next hkind =>
      cases h
      exact .boolean hkind
    · next hkind =>
      obtain ⟨s, hs, hv⟩ := bind_eq_ok_iff.1 h
      cases hv
      exact .string hkind (Token.stringValue_eq_ok_iff.1 hs)
    · next hkind =>
      cases h
      exact .symbol hkind
    · next hkind =>
      cases h
      exact .colon hkind
    · cases h
  · intro h
    cases h with
    | number hkind hn =>
      rw [ofToken, hkind]
      exact bind_eq_ok_iff.2 ⟨_, Token.numberValue_eq_ok_iff.2 hn, rfl⟩
    | boolean hkind =>
      rw [ofToken, hkind]
      rfl
    | string hkind hs =>
      rw [ofToken, hkind]
      exact bind_eq_ok_iff.2 ⟨_, Token.stringValue_eq_ok_iff.2 hs, rfl⟩
    | symbol hkind =>
      rw [ofToken, hkind]
      rfl
    | colon hkind =>
      rw [ofToken, hkind]
      rfl

mutual

/-- What the reader makes of a datum is denoted by it. -/
theorem denoted_of_ofDatum {d : Datum} {v : Value} (h : ofDatum d = .ok v) : Denoted d v := by
  match d with
  | .atom t =>
    rw [ofDatum] at h
    exact .atom (ofToken_eq_ok_iff.1 h)
  | .quoted mark d =>
    rw [ofDatum] at h
    obtain ⟨w, hw, hv⟩ := bind_eq_ok_iff.1 h
    cases hv
    exact .quoted (denoted_of_ofDatum hw)
  | .list left ds right =>
    rw [ofDatum] at h
    obtain ⟨vs, hvs, hv⟩ := bind_eq_ok_iff.1 h
    cases hv
    exact .list (denotedAll_of_ofData hvs)
  | .dotted left ds dot tail right =>
    rw [ofDatum] at h
    obtain ⟨last, hlast, h⟩ := bind_eq_ok_iff.1 h
    obtain ⟨vs, hvs, hv⟩ := bind_eq_ok_iff.1 h
    cases hv
    exact .dotted (denotedAll_of_ofData hvs) (denoted_of_ofDatum hlast)

theorem denotedAll_of_ofData {ds : List Datum} {vs : List Value} (h : ofData ds = .ok vs) :
    DenotedAll ds vs := by
  match ds with
  | [] =>
    rw [ofData] at h
    cases h
    exact .nil
  | d :: ds =>
    rw [ofData] at h
    obtain ⟨v, hv, h⟩ := bind_eq_ok_iff.1 h
    obtain ⟨vs, hvs, hcons⟩ := bind_eq_ok_iff.1 h
    cases hcons
    exact .cons (denoted_of_ofDatum hv) (denotedAll_of_ofData hvs)

end

mutual

/-- The reader gives every value that a datum denotes. -/
theorem Denoted.ofDatum_eq {d : Datum} {v : Value} : Denoted d v → ofDatum d = .ok v
  | .atom h => by
    rw [ofDatum]
    exact ofToken_eq_ok_iff.2 h
  | .quoted h => by
    rw [ofDatum]
    exact bind_eq_ok_iff.2 ⟨_, h.ofDatum_eq, rfl⟩
  | .list h => by
    rw [ofDatum]
    exact bind_eq_ok_iff.2 ⟨_, h.ofData_eq, rfl⟩
  | .dotted h hlast => by
    rw [ofDatum]
    exact bind_eq_ok_iff.2 ⟨_, hlast.ofDatum_eq, bind_eq_ok_iff.2 ⟨_, h.ofData_eq, rfl⟩⟩

theorem DenotedAll.ofData_eq {ds : List Datum} {vs : List Value} :
    DenotedAll ds vs → ofData ds = .ok vs
  | .nil => by
    rw [ofData]
    rfl
  | .cons hv hvs => by
    rw [ofData]
    exact bind_eq_ok_iff.2 ⟨_, hv.ofDatum_eq, bind_eq_ok_iff.2 ⟨_, hvs.ofData_eq, rfl⟩⟩

end

end Value

end TypedScheme
