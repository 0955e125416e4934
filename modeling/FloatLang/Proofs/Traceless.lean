import FloatLang.Proofs.Lockstep
import FloatLang.Proofs.Progress

/-!
# What leaves no trace

A top-level expression is answered and forgotten. So is a sentence that cannot be read, and a
definition that fails, unless its name had been declared before: then the declaration keeps the new
names of the parameters.

What is forgotten still makes a difference inside. A handle that has been given out is not given out
again, so that a function that is added later has another handle, perhaps in another slot, than it
would have had. The module holds the same functions as before for all that, and so it is a twin of
what it was; and the sessions that go on from the one and from the other answer alike.
-/

namespace FloatLang

open Ssa

/-! ## The same functions -/

namespace Ssa.Module

/-- The second module has the same name and holds the same functions under the same handles. -/
structure SameViews (m m' : Module) : Prop where
  name : m'.name = m.name
  lookup? : ∀ n, m'.lookup? n = m.lookup? n
  find? : ∀ h, m'.find? h = m.find? h

namespace SameViews

variable {m m' m'' : Module} {T : Sources}

theorem refl (m : Module) : m.SameViews m := ⟨rfl, fun _ ↦ rfl, fun _ ↦ rfl⟩

theorem trans (h : m.SameViews m') (h' : m'.SameViews m'') : m.SameViews m'' :=
  ⟨h'.name.trans h.name, fun n ↦ (h'.lookup? n).trans (h.lookup? n),
    fun g ↦ (h'.find? g).trans (h.find? g)⟩

theorem holds (h : m.SameViews m') (hm : m.Holds T) (hm' : m'.Settled) : m'.Holds T := by
  refine hm.of_views hm' (fun n p _ hp ↦ ?_) fun n ↦ .inl ⟨rfl, h.lookup? n, fun g f _ hf ↦ ?_⟩
  · rw [callee?_eq_some_iff] at hp ⊢
    rwa [h.lookup?, paramCount, h.find?]
  · exact ⟨f, (h.find? g).trans hf, rfl, rfl, rfl⟩

/-- Modules that hold the same functions are twins. -/
theorem twins (h : m.SameViews m') (hm : m.Holds T) (hm' : m'.Settled) (ho : m.Orderly)
    (ho' : m'.Orderly) : Twins True T m m' := by
  have hext : m.Extends m' := by
    constructor
    · intro n g _ hl
      rwa [h.lookup?]
    · intro g f hf _
      exact ⟨f, (h.find? g).trans hf, rfl, rfl, fun _ ↦ rfl⟩
  refine ⟨h.name.symm, hm, h.holds hm hm', ho, ho', fun _ ↦ ?_, fun n ↦ ?_⟩
  · exact functionNames_congr fun g ↦ by rw [h.find?]
  · exact (hext.sameAt hm (h.lookup? n) fun _ hf ↦ (h.find? _).trans hf).alikeAt hm.toConsistent

end SameViews

end Ssa.Module

/-! ## Definitions that are taken back -/

namespace Lowering

variable {l l' : Lowering} {d : Definition}

private theorem sameViews_of_define_error {e : LoweringError} (hm : l.program.Settled)
    (hd : l.define d = (.error e, l'))
    (hnew : refusal? l.program d.proto = none → l.program.lookup? d.proto.name = none) :
    l.program.SameViews l'.program := by
  obtain ⟨hlookup, hfind⟩ := views_of_define_error hm hd
  have hname := name_define hm d
  rw [hd] at hname
  have hremnant : remnant l.program d.proto = l.program := by
    rw [remnant]
    cases hr : refusal? l.program d.proto with
    | some e => rfl
    | none => rw [hnew hr]
  refine ⟨hname, hlookup, fun h ↦ ?_⟩
  rw [hfind, hremnant]

private theorem sameViews_erase (hm : l.program.Settled) (ho : l.program.Orderly) {e : Expr}
    {h : FunctionId} (hd : l.define (.ofExpr e) = (.ok h, l')) :
    l.program.SameViews (l'.program.erase h) := by
  have hnone := lookup?_eq_none_of_define_expr hm ho hd
  obtain ⟨-, f, v, steps, hc⟩ := exists_completes hm hd
  have hmiss : l.program.find? h = none := by
    rcases hc.before with hf | ⟨hmiss, -⟩
    · have hl := hm.lookup?_of_find? hf
      rw [hc.name] at hl
      exact absurd (hl.symm.trans hnone) (Option.some_ne_none _)
    · exact hmiss
  have hname := name_define hm (.ofExpr e)
  rw [hd] at hname
  constructor
  · rw [Module.name_erase, hname]
  · intro n
    rw [Module.lookup?_erase, hc.find?_self, Option.map_some, Function.name_completed, hc.name,
      hc.lookup?]
    by_cases hn : n = ""
    · rw [if_pos ⟨if_pos hn, congrArg some hn.symm⟩, hn, hnone]
    · rw [if_neg fun hc' ↦ hn (Option.some.inj hc'.2).symm]
      exact if_neg hn
  · intro g
    rw [Module.find?_erase, hc.find?]
    by_cases hg : g = h
    · rw [if_pos hg, hg, hmiss]
    · rw [if_neg hg, if_neg hg]

end Lowering

/-! ## Sentences that are forgotten -/

namespace Session

/-- The item is of a kind that is forgotten: a top-level expression, something that cannot be read,
or a definition that fails and whose name is not declared. -/
def Forgets (s : Session) : Item → Prop
  | .statement (.definition d) =>
    s.lowering.program.lookup? d.proto.name = none ∧ (s.lowering.define d).1.isOk = false
  | .statement (.declaration _) => False
  | .statement (.expression _) => True
  | .misread _ => True

/-- All the items, answered one after the other, are of a kind that is forgotten. -/
def ForgetsAll (s : Session) : List Item → Prop
  | [] => True
  | i :: items => s.Forgets i ∧ (after (actItem i) s).ForgetsAll items

variable {s : Session} {b : Bool}

private theorem sameViews_actItem (hs : s.AreTwins True s) (hroom : s.console.out.room = none)
    {i : Item} (hnamed : i.Named) (hi : s.Forgets i) :
    s.lowering.program.SameViews (after (actItem i) s).lowering.program := by
  obtain ⟨T, ht⟩ := hs.lowering
  have hm := ht.holds.toSettled
  rcases i with (d | p | e) | what
  · obtain ⟨hnone, herror⟩ := hi
    show s.lowering.program.SameViews (after (performDefinition d) s).lowering.program
    rw [lowering_after_performDefinition]
    rcases hd : s.lowering.define d with ⟨e | h, l⟩
    · exact Lowering.sameViews_of_define_error hm hd fun _ ↦ hnone
    · rw [hd] at herror
      cases herror
  · exact hi.elim
  · obtain ⟨s', hrun, -⟩ := exists_run_actItem ht.holds hroom hnamed
    have hafter := lowering_after_performExpression e s
    show s.lowering.program.SameViews (after (performExpression e) s).lowering.program
    rcases hd : s.lowering.define (.ofExpr e) with ⟨err | h, l⟩
    · rw [hd] at hafter
      rw [hafter]
      exact Lowering.sameViews_of_define_error hm hd
        (Lowering.lookup?_eq_none_of_refusal? hm ht.orderly)
    · rw [hd] at hafter
      rcases hafter with ⟨-, err, s'', herror⟩ | herased
      · -- with room for its text it is not kept
        exact nomatch hrun.symm.trans herror
      · rw [herased]
        exact Lowering.sameViews_erase hm ht.orderly hd
  · show s.lowering.program.SameViews (after (report _) s).lowering.program
    rw [quiet_report]
    exact .refl _

private theorem sameViews_act {c : Script} (hc : ∀ i ∈ c.items, i.Named)
    (hs : Mirrors b (Lowering.AreTwins True) s s) (hroom : s.console.out.room = none)
    (hforget : s.ForgetsAll c.items) :
    s.lowering.program.SameViews (after (act c) s).lowering.program := by
  obtain ⟨items, fault⟩ := c
  induction items generalizing s with
  | nil =>
    cases fault with
    | none => exact .refl _
    | some e => exact .refl _
  | cons i items ih =>
    obtain ⟨hi, hitems⟩ := hforget
    have hnamed := hc i List.mem_cons_self
    have hview := sameViews_actItem hs.areTwins hroom hnamed hi
    have hmirrors := (endAlike_actItem hnamed hs).mirrors_after
    obtain ⟨T, ht⟩ := hs.lowering
    obtain ⟨s', hrun, hroom'⟩ := exists_run_actItem ht.holds hroom hnamed
    rw [after_of_run_ok hrun] at hview hmirrors hitems
    rw [show act ⟨i :: items, fault⟩ = _ from act_cons i ⟨items, fault⟩, after_bind_of_run_ok hrun]
    exact hview.trans (ih hmirrors hroom' (fun j hj ↦ hc j (List.mem_cons_of_mem _ hj)) hitems)

/-- The text is forgotten: what the session is afterwards is a twin of what it was. -/
theorem AreTwins.after_handle (hs : s.AreTwins True s) {text : String}
    (hforget : (s.withRoom none).ForgetsAll (Script.ofText text).items) :
    (after (handle text) (s.withRoom none)).AreTwins True s := by
  have hmirrors := hs.withRoom none
  have hview := sameViews_act (Script.named_ofText text) hmirrors rfl hforget
  have hafter := (endAlike_handle text hmirrors).mirrors_after
  rw [handle_eq] at hafter ⊢
  obtain ⟨T, ht⟩ := hs.lowering
  obtain ⟨T', ht'⟩ := hafter.lowering
  refine ⟨hafter.evaluates, T, ?_⟩
  exact (hview.twins ht.holds ht'.holds.toSettled ht.orderly ht'.orderly).symm

theorem areTwins_start (name : String) (evaluates : Bool) :
    (start name evaluates).AreTwins True (start name evaluates) := by
  have hm := Module.holds_empty name
  have ho := Module.orderly_empty name
  exact ⟨rfl, .empty, (Module.SameViews.refl _).twins hm hm.toSettled ho ho⟩

/-- **What is forgotten leaves no trace.** Let one of the texts that a session is fed consist of
top-level expressions, of what cannot be read, and of definitions that fail and whose names are not
declared at that point. If there is room for its answers, every later line is answered as if that
text had never been there, with the same bytes, the same notes and the same success or failure; and
so is the request for the text of the module. -/
theorem forgotten_texts_leave_no_trace (name : String) (evaluates : Bool)
    (before : List (Option Nat × String)) (text : String)
    (hforget : (((start name evaluates).feed before).withRoom none).ForgetsAll
      (Script.ofText text).items) (later : List (Option Nat × String)) (room : Option Nat) :
    let s := (start name evaluates).feed (before ++ (none, text) :: later)
    let s' := (start name evaluates).feed (before ++ later)
    (∀ line, reply (handle line) (s.withRoom room) = reply (handle line) (s'.withRoom room)) ∧
      reply dump (s.withRoom room) = reply dump (s'.withRoom room) := by
  intro s s'
  have hbefore := (areTwins_start name evaluates).feed before
  have htwins : s.AreTwins True s' := by
    show AreTwins True (feed _ _) (feed _ _)
    rw [feed_append, feed_append]
    exact (hbefore.after_handle hforget).feed later
  exact ⟨htwins.reply_handle room, htwins.reply_dump trivial room⟩

/-- The definition of a new name that uses something that there is not leaves no trace. -/
theorem unknown_variable_leaves_no_trace :
    (((start "m" true).feed []).withRoom none).ForgetsAll (Script.ofText "def f() x").items ∧
      ∀ later room,
        let s := (start "m" true).feed ([] ++ (none, "def f() x") :: later)
        let s' := (start "m" true).feed ([] ++ later)
        (∀ line, reply (handle line) (s.withRoom room) = reply (handle line) (s'.withRoom room)) ∧
          reply dump (s.withRoom room) = reply dump (s'.withRoom room) := by
  have hstream : (Cursor.ofString "def f() x").stream =
      ⟨[.defKeyword, .identifier "f", .symbol '(', .symbol ')', .identifier "x"], none⟩ :=
    open Cursor in
    stream_of_call rfl <| stream_of_call rfl <| stream_of_call rfl <| stream_of_call rfl <|
      stream_of_call rfl <| stream_of_call_end rfl
  have hread : readStatement none
      [.defKeyword, .identifier "f", .symbol '(', .symbol ')', .identifier "x"] =
        .read (.definition ⟨⟨"f", []⟩, .name "x"⟩) [] (by decide) := by
    simp [readStatement, readDefinition, readDeclaration, readPrototype, readNames,
      readExpr.eq_def, readPrimary.eq_def, readOperators.eq_def, Reading.bind, Reading.stepOver,
      Reading.widen, Reading.close, TokenStream.blocking?]
  have hitems : (Script.ofText "def f() x").items =
      [.statement (.definition ⟨⟨"f", []⟩, .name "x"⟩)] := by
    rw [Script.ofText_of_read (by decide) hstream hread]
  have hforget : (((start "m" true).feed []).withRoom none).ForgetsAll
      (Script.ofText "def f() x").items := by
    rw [hitems]
    exact ⟨⟨rfl, rfl⟩, trivial⟩
  exact ⟨hforget, forgotten_texts_leave_no_trace "m" true [] "def f() x" hforget⟩

end Session

end FloatLang
