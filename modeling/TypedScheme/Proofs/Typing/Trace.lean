import TypedScheme.Command.Check
import TypedScheme.Proofs.Typing.Indent
import TypedScheme.Proofs.Typing.Occurrences

/-!
# The trace of a check

A traced check writes a line for every expression that it comes to. It comes to all parts of a program
from left to right, each before its own parts, so the lines of a program that is well typed are the
preorder of its tree. A check that fails stops somewhere on that way. Nothing that a check decides depends
on whether it is traced.

## What this module delivers

- `Expr.preorder d e`: the expressions of a tree in the order of reading, with their depths. Procedures
  that are bound recursively are not listed themselves; their bodies are.
- `Check.Writes c ns`: if `c` has a result, it has written the notes `ns`, and else a first part of them;
  with a rule for every step of a check.
- `Expr.writes_typeOf` and its companions, one rule of typing at a time.
- `Note.line` and `Expr.Lists result text ns`: the notes `ns` as lines of text, all of them or, with an
  error, the first of them; `Expr.Follows.lists` gets from notes to the text on the log.
- `Expr.trace_eq_preorder`: all of this for programs, with the indent that a check leaves behind.
-/

set_option autoImplicit false

namespace TypedScheme

/-! ## The preorder of a program -/

namespace Expr

mutual

/-- An expression and all that stands inside it, each before its own parts, with their depths. -/
def preorder (d : Nat) (e : Expr) : List Note :=
  ⟨d, e⟩ :: match e with
    | cond _ test consequent alternative =>
      preorder (d + 1) test ++ (preorder (d + 1) consequent ++ preorder (d + 1) alternative)
    | lambda _ _ _ body => preorderAll (d + 1) body
    | app _ operator operands => preorder (d + 1) operator ++ preorderAll (d + 1) operands
    | letin _ bindings body => preorderBound (d + 1) bindings ++ preorderAll (d + 1) body
    | letrec _ bindings body => preorderProcedures (d + 1) bindings ++ preorderAll (d + 1) body
    | define _ _ value => preorder (d + 1) value
    | program forms => preorderAll (d + 1) forms
    | _ => []

/-- The preorders of expressions in a row. -/
def preorderAll (d : Nat) : List Expr → List Note
  | [] => []
  | e :: es => preorder d e ++ preorderAll d es

/-- The preorders of the values of bindings. -/
def preorderBound (d : Nat) : List (Decl × Expr) → List Note
  | [] => []
  | (_, value) :: rest => preorder d value ++ preorderBound d rest

/-- The preorders of what is bound recursively. A procedure has no line of its own, and its body stands
in its place. -/
def preorderProcedures (d : Nat) : List (Decl × Expr) → List Note
  | [] => []
  | (_, lambda _ _ _ body) :: rest => preorderAll d body ++ preorderProcedures d rest
  | (_, value) :: rest => preorder d value ++ preorderProcedures d rest

end

end Expr

/-! ## Checks that write notes -/

namespace Check

variable {α β : Type}

/-- From every traced state, a check with a result has written the notes `ns` after those before it, and
a check with an error a first part of them. -/
def Writes (c : Check α) (ns : List Note) : Prop :=
  ∀ σ, σ.tracing = true → (c.run σ).2.tracing = true ∧
    (∀ a, (c.run σ).1 = .ok a → (c.run σ).2.notes = σ.notes ++ ns) ∧
    ∀ e, (c.run σ).1 = .error e → ∃ first, first <+: ns ∧ (c.run σ).2.notes = σ.notes ++ first

namespace Writes

variable {c : Check α} {ns : List Note}

theorem pure (a : α) : Writes (Pure.pure a) [] := by
  intro σ hσ
  exact ⟨hσ, fun _ _ => (List.append_nil _).symm, fun e he => by simp at he⟩

/-- A fault writes nothing, which is a first part of all that there is to write. -/
theorem fault (f : TypeFault) (span : Span) : Writes (Check.fault f span : Check α) ns := by
  intro σ hσ
  refine ⟨hσ, fun a ha => by simp at ha, fun e _ => ⟨[], List.nil_prefix, ?_⟩⟩
  exact (List.append_nil _).symm

theorem note (d : Nat) (e : Expr) : Writes (Check.note d e) [⟨d, e⟩] := by
  rintro ⟨last, tracing, notes⟩ hσ
  obtain rfl : tracing = true := hσ
  exact ⟨rfl, fun _ _ => rfl, fun e he => by cases he⟩

theorem numbered (make : Nat → α × Nat) : Writes (Check.numbered make) [] := by
  intro σ hσ
  exact ⟨hσ, fun _ _ => (List.append_nil _).symm, fun e he => by simp at he⟩

theorem require (expected found : Ty) (inside : Expr) :
    Writes (Check.require expected found inside) [] := by
  unfold Check.require
  split
  · exact pure ()
  · exact fault _ _

theorem lookup (Γ : Scope) (name : String) (span : Span) :
    Writes (Check.lookup Γ name span) [] := by
  unfold Check.lookup
  cases Γ.lookup name with
  | some t => exact pure t
  | none => exact fault _ _

/-- The second part of a bind goes on where the first part has stopped. -/
theorem bind {R : α → Prop} {f : α → Check β} {ms : List Note} (hR : Ensures c R)
    (hc : Writes c ns) (hf : ∀ a, R a → Writes (f a) ms) : Writes (c >>= f) (ns ++ ms) := by
  intro σ hσ
  obtain ⟨htracing, hok, herror⟩ := hc σ hσ
  rcases hrun : c.run σ with ⟨e | a, σ'⟩
  · rw [hrun] at htracing herror
    rw [run_bind_error hrun]
    refine ⟨htracing, ?_, fun e' _ => ?_⟩
    · intro b hb
      cases hb
    obtain ⟨first, hfirst, hnotes⟩ := herror e rfl
    exact ⟨first, hfirst.trans (List.prefix_append ns ms), hnotes⟩
  · have ha : R a := hR σ a (by rw [hrun])
    rw [hrun] at htracing hok
    rw [run_bind_ok hrun]
    have hnotes : σ'.notes = σ.notes ++ ns := hok a rfl
    obtain ⟨htracing', hok', herror'⟩ := hf a ha σ' htracing
    refine ⟨htracing', fun b hb => ?_, fun e he => ?_⟩
    · rw [hok' b hb, hnotes, List.append_assoc]
    · obtain ⟨first, hfirst, hnotes'⟩ := herror' e he
      refine ⟨ns ++ first, (List.prefix_append_right_inj ns).2 hfirst, ?_⟩
      rw [hnotes', hnotes, List.append_assoc]

theorem andThen {f : α → Check β} {ms : List Note} (hc : Writes c ns)
    (hf : ∀ a, Writes (f a) ms) : Writes (c >>= f) (ns ++ ms) :=
  bind (.any c) hc fun a _ => hf a

/-- A bind whose first part writes nothing. -/
theorem skip {R : α → Prop} {f : α → Check β} {ms : List Note} (hR : Ensures c R)
    (hc : Writes c []) (hf : ∀ a, R a → Writes (f a) ms) : Writes (c >>= f) ms :=
  bind hR hc hf

/-- A bind whose second part writes nothing. -/
theorem andStop {f : α → Check β} (hc : Writes c ns) (hf : ∀ a, Writes (f a) []) :
    Writes (c >>= f) ns :=
  List.append_nil ns ▸ andThen hc hf

end Writes

end Check

namespace Expr

open Check

/-! ## One rule of typing at a time -/

/-- Names are brought into scope recursively without writing anything. -/
theorem writes_recursiveBindings (bs : List (Decl × Expr)) : Writes (recursiveBindings bs) [] := by
  induction bs with
  | nil => exact .pure []
  | cons b bs ih =>
    obtain ⟨decl, value⟩ := b
    refine .andStop (c := recursiveBinding (decl, value)) ?_ fun _ => .andStop ih fun _ => .pure _
    cases value with
    | lambda span params result body =>
      simp only [recursiveBinding]
      cases decl.ty? with
      | none => exact .pure _
      | some declared => exact .andStop (.require _ _ _) fun _ => .pure _
    | missing | number | boolean | string | quoted | primitive | var | cond | app | letin | letrec
    | define | program => exact .fault _ _

mutual

/-- A check of an expression writes its preorder. -/
theorem writes_typeOf (Γ : Scope) (d : Nat) (e : Expr) :
    Writes (typeOf Γ d e) (preorder d e) := by
  rw [typeOf.eq_def, preorder.eq_def]
  refine .andThen (.note d e) fun _ => ?_
  cases e with
  | missing => exact .fault _ _
  | number | boolean | string => exact .pure _
  | quoted mark v span =>
    dsimp only
    cases v.typeOf true with
    | ok t => exact .pure t
    | error f => exact .fault f span
  | primitive token =>
    dsimp only
    cases Primitive.signature? token.text with
    | some signature => exact .numbered _
    | none => exact .fault _ _
  | var token => exact .lookup _ _ _
  | cond span test consequent alternative =>
    refine .andThen (writes_typeOf Γ _ test) fun _ => ?_
    refine .skip (.any _) (.require _ _ _) fun _ _ => ?_
    refine .andThen (writes_typeOf Γ _ consequent) fun _ => ?_
    refine .andStop (writes_typeOf Γ _ alternative) fun _ => ?_
    exact .andStop (.require _ _ _) fun _ => .pure _
  | lambda span params result body =>
    refine .andStop (writes_typeOfBody _ _ _ body) fun _ => ?_
    exact .andStop (.require _ _ _) fun _ => .pure _
  | app span operator operands =>
    refine .andThen (writes_typeOf Γ _ operator) fun t => ?_
    cases t with
    | absent | base | var | pair => exact .fault _ _
    | proc params result =>
      dsimp only
      split
      · rename_i hlen
        refine .skip (.any _) (.numbered _) fun fresh _ => ?_
        -- There are as many parameters as operands, so that every operand is come to.
        refine .andStop (writes_matchOperands Γ _ [] _ operands ?_) fun _ => .pure _
        rw [Ty.bindAll_eq_map, List.length_map, hlen]
      · exact .fault _ _
  | letin span bindings body =>
    exact .andThen (writes_typeOfBindings Γ _ bindings) fun _ => writes_typeOfBody _ _ _ body
  | letrec span bindings body =>
    -- Where bodies are checked, all that is bound recursively are procedures.
    have hlambdas : Ensures (recursiveBindings bindings) fun _ => ∀ b ∈ bindings, b.2.isLambda = true :=
      fun σ bs hbs => (reports_recursiveBindings (E := fun _ => True) bindings σ).1 bs hbs
    refine .skip hlambdas (writes_recursiveBindings bindings) fun _ hbindings => ?_
    refine .andThen (writes_checkProcedures _ _ bindings hbindings) fun _ => ?_
    exact writes_typeOfBody _ _ _ body
  | define span decl value => exact .fault _ _
  | program forms => exact .andStop (writes_typeOfForms Γ _ forms) fun _ => .pure _

theorem writes_typeOfBody (Γ : Scope) (d : Nat) (owner : Expr) (es : List Expr) :
    Writes (typeOfBody Γ d owner es) (preorderAll d es) := by
  match es with
  | [] => exact .fault _ _
  | [e] =>
    rw [preorderAll, preorderAll, List.append_nil]
    exact writes_typeOf Γ d e
  | e :: f :: es =>
    exact .andThen (writes_typeOf Γ d e) fun _ => writes_typeOfBody Γ d owner (f :: es)

theorem writes_matchOperands (Γ : Scope) (d : Nat) (s : Substitution) (params : List Ty)
    (es : List Expr) (hlen : params.length = es.length) :
    Writes (matchOperands Γ d s params es) (preorderAll d es) := by
  match params, es with
  | [], [] => exact .pure s
  | [], _ :: _ => simp at hlen
  | _ :: _, [] => simp at hlen
  | p :: params, e :: es =>
    refine .andThen (writes_typeOf Γ d e) fun t => ?_
    rcases s.unify p t with ⟨ok, s'⟩
    cases ok with
    | true => exact writes_matchOperands Γ d s' params es (by simpa using hlen)
    | false => exact .fault _ _

theorem writes_typeOfBindings (Γ : Scope) (d : Nat) (bs : List (Decl × Expr)) :
    Writes (typeOfBindings Γ d bs) (preorderBound d bs) := by
  match bs with
  | [] => exact .pure []
  | (decl, value) :: rest =>
    refine .andThen (writes_typeOf Γ d value) fun _ => ?_
    refine .skip (.any _) (.require _ _ _) fun _ _ => ?_
    exact .andStop (writes_typeOfBindings Γ d rest) fun _ => .pure _

theorem writes_checkProcedures (Γ : Scope) (d : Nat) (bs : List (Decl × Expr))
    (hbs : ∀ b ∈ bs, b.2.isLambda = true) :
    Writes (checkProcedures Γ d bs) (preorderProcedures d bs) := by
  match bs with
  | [] => exact .pure ()
  | (decl, value) :: rest =>
    obtain ⟨hlambda, hrest⟩ := List.forall_mem_cons.1 hbs
    cases value with
    | lambda span params result body =>
      refine .andThen (writes_typeOfBody _ _ _ body) fun _ => ?_
      exact .skip (.any _) (.require _ _ _) fun _ _ => writes_checkProcedures Γ d rest hrest
    | missing | number | boolean | string | quoted | primitive | var | cond | app | letin | letrec
    | define | program => cases hlambda

theorem writes_typeOfForms (Γ : Scope) (d : Nat) (forms : List Expr) :
    Writes (typeOfForms Γ d forms) (preorderAll d forms) := by
  match forms with
  | [] => exact .fault _ _
  | e :: rest =>
    have hform : Writes (typeOfForm Γ d e) (preorder d e) := by
      cases e with
      | define span decl value =>
        refine .andThen (.note d _) fun _ => .andStop (writes_typeOf Γ _ value) fun _ => ?_
        exact .andStop (.require _ _ _) fun _ => .pure _
      | missing | number | boolean | string | quoted | primitive | var | cond | lambda | app
      | letin | letrec | program => exact .andStop (writes_typeOf Γ d _) fun _ => .pure _
    match rest with
    | [] =>
      rw [typeOfForms_singleton, preorderAll, preorderAll, List.append_nil]
      exact hform
    | f :: rest =>
      rw [typeOfForms_cons_cons]
      exact .andThen hform fun r => writes_typeOfForms r.2 d (f :: rest)

end

end Expr

/-! ## Lines of text -/

namespace Note

/-- The line of an expression: two blanks for every step inwards, the expression as it is written, and a
line feed. -/
def line (n : Note) : List Char :=
  List.replicate (2 * n.depth) ' ' ++ n.expr.render.toList ++ ['\n']

/-- Notes are written out line by line. -/
theorem toList_renderAll (notes : List Note) : (renderAll notes).toList = notes.flatMap line := by
  have hline : ∀ n : Note, n.render.toList = n.line := by simp [render, line]
  rw [renderAll, String.toList_join, List.flatMap_map]
  simp only [hline]

/-- All that notes put on the two streams is their text on the log. -/
theorem logged_chunks (notes : List Note) :
    Chunk.logged (chunks notes) = renderAll notes ∧ Chunk.output (chunks notes) = "" := by
  cases notes with
  | nil => exact ⟨rfl, rfl⟩
  | cons n notes =>
    have hchunks : chunks (n :: notes) = [.err (renderAll (n :: notes))] := rfl
    rw [hchunks]
    simp [Chunk.logged, Chunk.output, Chunk.errText, Chunk.outText]

end Note

namespace Expr

/-- The notes of a check whose lines are `ns` if it goes through: all of them with a result, and a first
part of them with an error. -/
def Follows {ε α : Type} (result : Except ε α) (notes ns : List Note) : Prop :=
  (∀ a, result = .ok a → notes = ns) ∧ ∀ e, result = .error e → notes <+: ns

/-- The text of a check whose lines are those of `ns` if it goes through: all of them with a result, and
whole lines from the first on with an error. -/
def Lists {ε α : Type} (result : Except ε α) (text : String) (ns : List Note) : Prop :=
  (∀ a, result = .ok a → text.toList = ns.flatMap Note.line) ∧
    ∀ e, result = .error e → ∃ first, first <+: ns ∧ text.toList = first.flatMap Note.line

/-- What the notes of a check put on the log are their lines. -/
theorem Follows.lists {ε α : Type} {result : Except ε α} {notes ns : List Note}
    (h : Follows result notes ns) : Lists result (Chunk.logged (Note.chunks notes)) ns := by
  rw [Lists, (Note.logged_chunks notes).1, Note.toList_renderAll]
  refine ⟨fun a ha => ?_, fun e he => ⟨notes, h.2 e he, rfl⟩⟩
  rw [h.1 a ha]

/-! ## Whole checks -/

theorem follows_typeOfForms (Γ : Scope) (d : Nat) (forms : List Expr) (last : Nat) :
    let outcome := (typeOfForms Γ d forms).runFrom last true
    Follows outcome.result outcome.notes (preorderAll d forms) := by
  obtain ⟨-, hok, herror⟩ := writes_typeOfForms Γ d forms ⟨last, true, []⟩ rfl
  refine ⟨fun a ha => hok a ha, fun e he => ?_⟩
  obtain ⟨first, hfirst, hnotes⟩ := herror e he
  obtain rfl := hnotes.symm
  exact hfirst

/-- A submission to a traced session writes the preorder of its forms at the indent of the session. -/
theorem follows_check {s : IndentSession} (hs : s.tracing = true) (p : Program) :
    Follows (s.check p).1.result (s.check p).1.notes (preorderAll s.indent p.forms) := by
  have hfollows := follows_typeOfForms s.scope s.indent p.forms s.last
  rw [← hs] at hfollows
  obtain ⟨t, Γ, hresult, hcheck⟩ | ⟨e, hresult, hcheck⟩ := s.check_cases p
  · rw [hcheck]
    exact ⟨fun _ _ => hfollows.1 _ hresult, fun e he => by simp at he⟩
  · rw [hcheck]
    exact ⟨fun t ht => by simp at ht, fun _ _ => hfollows.2 e hresult⟩

/-- The notes of a program are its forms and all that stands inside them, in the order of reading and with
their depths, and what a traced check puts on the log is a line for each of them: two blanks for every
step of its depth, the expression as it is written, and a line feed. A check that fails has written the
first of these lines. A checker that keeps an indent instead of depths has the same outcome and ends at
the indent `d` at which it started. So all submissions to a session find the indent `d`, whatever has
become of those before them, and with `d = 0` the session does what one without an indent does. Without
tracing nothing is written, but there are the same type or error and the same numbers for type
variables. -/
theorem trace_eq_preorder (Γ : Scope) (d : Nat) (forms : List Expr) (last : Nat) :
    let outcome (tracing : Bool) := (typeOfForms Γ d forms).runFrom last tracing
    let logged (notes : List Note) := Chunk.logged (Note.chunks notes)
    Follows (outcome true).result (outcome true).notes (preorderAll d forms) ∧
    Lists (outcome true).result (logged (outcome true).notes) (preorderAll d forms) ∧
    (∀ tracing, (IndentCheck.typeOfForms Γ forms).run ⟨⟨last, tracing, []⟩, d⟩ =
      ((outcome tracing).result, ⟨⟨(outcome tracing).last, tracing, (outcome tracing).notes⟩, d⟩)) ∧
    (∀ (s : Session) (before : List Program) (p : Program),
      let now := IndentSession.afterAll ⟨s, d⟩ before
      let reply := (now.check p).1
      now.indent = d ∧
      (s.tracing = true → Follows reply.result reply.notes (preorderAll d p.forms) ∧
        Lists reply.result (logged reply.notes) (preorderAll d p.forms)) ∧
      (d = 0 → now.check p = ((now.toSession.check p).1, ⟨(now.toSession.check p).2, 0⟩))) ∧
    ((outcome false).notes = [] ∧ logged (outcome false).notes = "") ∧
      (outcome false).result = (outcome true).result ∧
      (outcome false).last = (outcome true).last := by
  intro outcome logged
  have hbuilt := built_typeOfForms Γ d forms
  have hfollows := follows_typeOfForms Γ d forms last
  have hnone : (outcome false).notes = [] := hbuilt.notes_runFrom last
  obtain ⟨hresult, hlast⟩ := hbuilt.run_congr ⟨last, false, []⟩ ⟨last, true, []⟩ rfl
  refine ⟨hfollows, hfollows.lists, IndentCheck.run_typeOfForms Γ d forms last, ?_,
    ⟨hnone, by rw [hnone]; rfl⟩, hresult, hlast⟩
  intro s before p now reply
  -- Whatever was submitted before has left the indent where it was.
  have hindent : now.indent = d := (IndentSession.indent_afterAll ⟨s, d⟩ before).1
  have htracing : now.tracing = s.tracing := (IndentSession.indent_afterAll ⟨s, d⟩ before).2
  refine ⟨hindent, fun hs => ?_, fun hd => IndentSession.check_eq (hindent.trans hd) p⟩
  have hreply := follows_check (htracing.trans hs) p
  rw [hindent] at hreply
  exact ⟨hreply, hreply.lists⟩

/-- A form with a recursive procedure, alone and before a variable that is unbound. The procedure has no
line, its body stands one step below the form, and what is submitted after the failing program starts at
the same indent. -/
theorem trace_eq_preorder_recursive :
    let name (text : String) : Token := ⟨.symbol, .absent, text⟩
    let boolean := Ty.base .boolean
    let again := app .absent (var (name "f")) [var (name "k")]
    let yes := Expr.boolean ⟨.boolean, .absent, "#t"⟩ true
    let first := app .absent (var (name "f")) [yes]
    let loop := lambda .absent [⟨name "k", boolean, .absent⟩] boolean [again]
    let e := letrec .absent [(⟨name "f", none, .absent⟩, loop)] [first]
    let lines : List Note := [⟨3, e⟩, ⟨4, again⟩, ⟨5, var (name "f")⟩, ⟨5, var (name "k")⟩, ⟨4, first⟩,
      ⟨5, var (name "f")⟩, ⟨5, yes⟩]
    let shown := ["      (letrec ((f (lambda ((k : boolean)) : boolean (f k)))) (f #t))\n",
      "        (f k)\n", "          f\n", "          k\n", "        (f #t)\n", "          f\n",
      "          #t\n"]
    let logged (notes : List Note) := Chunk.logged (Note.chunks notes)
    let alone := (typeOfForms .empty 3 [e]).runFrom 0 true
    let failing := (typeOfForms .empty 3 [e, var (name "k"), e]).runFrom 0 true
    let now := IndentSession.afterAll ⟨.startFrom 0 true, 3⟩ [⟨[e, var (name "k"), e]⟩]
    let reply := (now.check ⟨[e]⟩).1
    (alone.result = .ok (boolean, .empty) ∧ alone.notes = lines ∧
      logged alone.notes = String.join shown) ∧
      (failing.result = .error ⟨.unbound "k", .absent⟩ ∧
        failing.notes <+: lines ++ ⟨3, var (name "k")⟩ :: lines ∧
        logged failing.notes = String.join (shown ++ ["      k\n"])) ∧
      now.indent = 3 ∧ Follows reply.result reply.notes lines ∧
        Lists reply.result (logged reply.notes) lines := by
  intro name boolean again yes first loop e lines shown logged alone failing now reply
  have hok : alone.result = .ok (boolean, .empty) := rfl
  have herror : failing.result = .error ⟨.unbound "k", .absent⟩ := rfl
  obtain ⟨halone, htext, -, hsession, -⟩ := trace_eq_preorder .empty 3 [e] 0
  obtain ⟨hfailing, -⟩ := trace_eq_preorder .empty 3 [e, var (name "k"), e] 0
  obtain ⟨hindent, hreply, -⟩ := hsession (.startFrom 0 true) [⟨[e, var (name "k"), e]⟩] ⟨[e]⟩
  have hlines : preorderAll 3 [e] = lines := rfl
  have hshown : (preorderAll 3 [e]).flatMap Note.line = (String.join shown).toList := by decide +kernel
  rw [← hlines]
  refine ⟨⟨hok, halone.1 _ hok, String.toList_inj.1 ((htext.1 _ hok).trans hshown)⟩,
    ⟨herror, hfailing.2 _ herror, by decide +kernel⟩, hindent, ?_⟩
  subst now
  exact hreply rfl

end Expr

end TypedScheme
