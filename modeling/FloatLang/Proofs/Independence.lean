import FloatLang.Proofs.Traceless

/-!
# Declarations that do not depend on one another

Two statements that define or declare functions of different names, of which neither calls the
other, can be given in either order. Each is answered the same in both orders, accepted or rejected,
and every later line is; only the order of the functions in the text of the module tells the orders
apart.

The two orders assign different handles and slots, and a statement that is rejected leaves a
generation behind, so the modules are not equal. They are twins that are not ordered. That is shown
name by name. A statement leaves the names alone that are not its own, hence whatever the other
statement refers to; so the other one is answered the same, and makes a function that reads the
same. The two names come from two different runs here: the function of the first statement is the
same in both modules because the other statement does not touch what the first one refers to, and
the other way round.
-/

namespace FloatLang

open Ssa

/-! ## Statements that do not depend on one another -/

namespace Statement

/-- The statement defines or declares a function. -/
def Declares : Statement → Prop
  | .definition _ => True
  | .declaration _ => True
  | .expression _ => False

def callees : Statement → List String
  | .definition d => d.body.callees
  | .declaration _ => []
  | .expression e => e.callees

/-- The statements are about different names, and neither calls the name of the other. -/
structure Independent (st st' : Statement) : Prop where
  subject_ne : st.subject ≠ st'.subject
  not_mem_callees : st'.subject ∉ st.callees
  not_mem_callees' : st.subject ∉ st'.callees

/-- What a statement gives its name. -/
def source : Statement → Source
  | .definition d => ⟨d.proto.params, some d.body⟩
  | .declaration p => ⟨p.params, none⟩
  | .expression e => ⟨[], some e⟩

theorem Independent.symm {st st' : Statement} (h : st.Independent st') : st'.Independent st :=
  ⟨h.subject_ne.symm, h.not_mem_callees', h.not_mem_callees⟩

end Statement

/-! ## Sources after a statement -/

namespace Sources

variable {T : Sources} {st : Statement} {n : String}

/-- Whether a statement gives its name something. -/
def takes (T : Sources) : Statement → Bool
  | .definition d => T.accepts d
  | .declaration p => (T p.name).isNone
  | .expression _ => false

theorem after_statement (T : Sources) (st : Statement) :
    T.after (.statement st) = if T.takes st then T.set st.subject (some st.source) else T := by
  rcases st with d | p | e
  · rfl
  · rw [after, declare, takes]
    cases T p.name with
    | none => rfl
    | some src => rfl
  · rfl

theorem after_of_ne (hn : n ≠ st.subject) : T.after (.statement st) n = T n := by
  rw [after_statement]
  split
  · exact set_of_ne hn
  · rfl

end Sources

/-! ## What one statement does to one name -/

namespace Lowering

abbrev taking (l : Lowering) (st : Statement) : Lowering := (l.answer (.statement st)).left

variable {T T' : Sources} {l l' : Lowering} {st st' : Statement} {n : String}

/-- A statement leaves the other names as they are. -/
theorem sameAt_taking (hst : st.Declares) (hm : l.program.Holds T) (hn : n ≠ st.subject) :
    Module.SameAt n l.program (l.taking st).program := by
  rcases st with d | p | e
  · rw [taking, left_answer_definition]
    exact sameAt_define hm (.inl hn)
  · rw [taking, left_answer_declaration]
    exact sameAt_declare hm p (.inl hn)
  · exact hst.elim

/-- A statement makes the same of its name wherever what it refers to is alike. -/
theorem alikeAt_taking (hst : st.Declares) (hnamed : st.Named) (hm : l.program.Holds T)
    (hm' : l'.program.Holds T') (ha : Module.AlikeAt st.subject l.program l'.program)
    (hcallees : ∀ name ∈ st.callees, Module.AlikeAt name l.program l'.program) :
    Module.AlikeAt st.subject (l.taking st).program (l'.taking st).program := by
  rcases st with d | p | e
  · rw [taking, taking, left_answer_definition, left_answer_definition]
    exact alikeAt_define hm hm' ha hcallees hnamed.body
  · rw [taking, taking, left_answer_declaration, left_answer_declaration]
    exact alikeAt_declare hm hm' ha
  · exact hst.elim

theorem holds_taking (hst : st.Declares) (hnamed : st.Named) (hm : l.program.Holds T) :
    (l.taking st).program.Holds (T.after (.statement st)) := by
  rcases st with d | p | e
  · rw [taking, left_answer_definition]
    exact holds_after_define hm hnamed.body
  · rw [taking, left_answer_declaration]
    exact holds_declare hm p
  · exact hst.elim

private theorem orderly_taking (hst : st.Declares) (hnamed : st.Named) (hm : l.program.Settled)
    (ho : l.program.Orderly) : (l.taking st).program.Orderly := by
  rcases st with d | p | e
  · rw [taking, left_answer_definition]
    exact orderly_define hm ho d
  · rw [taking, left_answer_declaration]
    exact orderly_declare hm ho hnamed
  · exact hst.elim

private theorem name_taking (hst : st.Declares) (hm : l.program.Settled) :
    (l.taking st).program.name = l.program.name := by
  rcases st with d | p | e
  · rw [taking, left_answer_definition, name_define hm]
  · rw [taking, left_answer_declaration, name_declare]
  · exact hst.elim

end Lowering

/-! ## Two statements in either order -/

section EitherOrder

variable {T : Sources} {l : Lowering} {st st' : Statement} {n : String}

namespace Lowering

section

variable (hst' : st'.Declares) (hind : st.Independent st') (hm : l.program.Holds T)
include hst' hind hm

private theorem alikeAt_subject : Module.AlikeAt st.subject l.program (l.taking st').program :=
  (sameAt_taking hst' hm hind.subject_ne).alikeAt hm.toConsistent

private theorem alikeAt_callees :
    ∀ name ∈ st.callees, Module.AlikeAt name l.program (l.taking st').program :=
  fun _ hname ↦ (sameAt_taking hst' hm (ne_of_mem_of_not_mem hname hind.not_mem_callees)).alikeAt
    hm.toConsistent

end

section

variable (hst : st.Declares) (hst' : st'.Declares) (hnamed : st.Named) (hnamed' : st'.Named)
  (hind : st.Independent st') (hm : l.program.Holds T)
include hst hst' hnamed hnamed' hind hm

private theorem takes_after : (T.after (.statement st')).takes st = T.takes st := by
  rcases st with d | p | e
  · have hm' := holds_taking hst' hnamed' hm
    rw [Sources.takes, Sources.takes, ← isOk_define hm hnamed.body, ← isOk_define hm' hnamed.body]
    rcases cases_define_of_alikeAt hm hm' (alikeAt_subject hst' hind hm)
      (alikeAt_callees hst' hind hm) with ⟨e, hd, hd'⟩ | ⟨h, h', hd, hd'⟩
    · rw [hd, hd']
    · rw [hd, hd']
      rfl
  · rw [Sources.takes, Sources.takes]
    exact congrArg Option.isNone (Sources.after_of_ne hind.subject_ne)
  · exact hst.elim

private theorem after_comm : (T.after (.statement st)).after (.statement st') =
    (T.after (.statement st')).after (.statement st) := by
  have htakes := takes_after hst hst' hnamed hnamed' hind hm
  have htakes' := takes_after hst' hst hnamed' hnamed hind.symm hm
  rw [Sources.after_statement (T.after _), htakes', Sources.after_statement (T.after _) st, htakes,
    Sources.after_statement T, Sources.after_statement T]
  split <;> split <;> try rfl
  exact Sources.set_comm hind.subject_ne _

/-- The name of a statement is alike after the two in either order. -/
private theorem alikeAt_subject_taking : Module.AlikeAt st.subject
    ((l.taking st).taking st').program ((l.taking st').taking st).program := by
  have h₁ := holds_taking hst hnamed hm
  have h₂ := holds_taking hst' hnamed' hm
  have hown := alikeAt_taking hst hnamed hm h₂ (alikeAt_subject hst' hind hm)
    (alikeAt_callees hst' hind hm)
  exact hown.of_sameAt (sameAt_taking hst' h₁ hind.subject_ne) (.refl _ _)

/-- **The two orders lead to twins.** -/
theorem twins_taking (ho : l.program.Orderly) :
    Module.Twins False ((T.after (.statement st)).after (.statement st'))
      ((l.taking st).taking st').program ((l.taking st').taking st).program := by
  have h₁ := holds_taking hst hnamed hm
  have h₂ := holds_taking hst' hnamed' hm
  have h₂₁ := holds_taking hst hnamed h₂
  refine ⟨?_, holds_taking hst' hnamed' h₁, ?_, ?_, ?_, nofun, fun n ↦ ?_⟩
  · rw [name_taking hst' h₁.toSettled, name_taking hst hm.toSettled, name_taking hst h₂.toSettled,
      name_taking hst' hm.toSettled]
  · rw [after_comm hst hst' hnamed hnamed' hind hm]
    exact h₂₁
  · exact orderly_taking hst' hnamed' h₁.toSettled (orderly_taking hst hnamed hm.toSettled ho)
  · exact orderly_taking hst hnamed h₂.toSettled (orderly_taking hst' hnamed' hm.toSettled ho)
  · by_cases hn : n = st.subject
    · rw [hn]
      exact alikeAt_subject_taking hst hst' hnamed hnamed' hind hm
    · by_cases hn' : n = st'.subject
      · rw [hn']
        exact (alikeAt_subject_taking hst' hst hnamed' hnamed hind.symm hm).symm
      · have hone := ((Module.SameAt.refl n l.program).alikeAt hm.toConsistent).of_sameAt
          (sameAt_taking hst hm hn) (sameAt_taking hst' hm hn')
        exact hone.of_sameAt (sameAt_taking hst' h₁ hn') (sameAt_taking hst h₂ hn)

end

end Lowering

end EitherOrder

namespace Session

/-! ## Lines with one statement -/

section Lines

variable {b : Bool} {T T' : Sources} {l l' : Lowering} {st st' : Statement} {s s' : Session}
  {text : String}

private theorem endAlike_statement (hst : st.Declares) (hnamed : st.Named) (hm : l.program.Holds T)
    (hm' : l'.program.Holds T') (ha : Module.AlikeAt st.subject l.program l'.program)
    (hcallees : ∀ name ∈ st.callees, Module.AlikeAt name l.program l'.program)
    (hs : Mirrors b (Pinned l l') s s') :
    EndWith b (Pinned (l.taking st) (l'.taking st)) ((actItem (.statement st)).run s)
      ((actItem (.statement st)).run s') := by
  rcases st with d | p | e
  · rw [Lowering.taking, Lowering.taking, Lowering.left_answer_definition,
      Lowering.left_answer_definition]
    exact endAlike_performDefinition hm hm' hnamed.body ha hcallees hs
  · rw [Lowering.taking, Lowering.taking, Lowering.left_answer_declaration,
      Lowering.left_answer_declaration]
    exact endAlike_performDeclaration hm hm' ha hs
  · exact hst.elim

/-- A line with one statement, and room for its answer, changes what has been lowered only. -/
theorem feed_statement (htext : Script.ofText text = ⟨[.statement st], none⟩) (s : Session) :
    (s.feed [(none, text)]).evaluates = s.evaluates ∧
      (s.feed [(none, text)]).lowering = s.lowering.taking st := by
  obtain ⟨s', printed, hrun, htold⟩ := run_handle (s := s.withRoom none) rfl text
  have hfeed : s.feed [(none, text)] = s' := after_of_run_ended hrun
  rw [hfeed, htold.evaluates, htold.lowering, htext]
  refine ⟨rfl, ?_⟩
  show s.lowering.answered [.statement st] = _
  rw [Lowering.answered, Lowering.answered, ite_self]

end Lines

/-! ## Two lines in either order -/

section EitherOrder

variable {T : Sources} {st st' : Statement} {s : Session} {text text' : String}
  (htext : Script.ofText text = ⟨[.statement st], none⟩)
  (htext' : Script.ofText text' = ⟨[.statement st'], none⟩)
  (hst : st.Declares) (hst' : st'.Declares) (hind : st.Independent st')

include htext in
private theorem named_of_ofText : st.Named :=
  Script.named_ofText text (.statement st) (by rw [htext]; exact List.mem_singleton_self _)

include htext htext' hst hst' hind

private theorem reply_handle_feed (hm : s.lowering.program.Holds T) :
    reply (handle text) (s.withRoom none) =
      reply (handle text) ((s.feed [(none, text')]).withRoom none) := by
  obtain ⟨hevaluates, hlowering⟩ := feed_statement htext' s
  have hmirrors : Mirrors s.evaluates (Pinned s.lowering (s.lowering.taking st'))
      (s.withRoom none) ((s.feed [(none, text')]).withRoom none) :=
    ⟨rfl, hevaluates, rfl, rfl, hlowering⟩
  rw [handle_eq_of_statement htext]
  exact (endAlike_statement hst (named_of_ofText htext) hm
    (Lowering.holds_taking hst' (named_of_ofText htext') hm)
    (Lowering.alikeAt_subject hst' hind hm) (Lowering.alikeAt_callees hst' hind hm)
    hmirrors).reply_eq

/-- The two orders lead to sessions that are twins, the order of the functions apart. -/
theorem areTwins_feed_feed (hs : s.AreTwins True s) :
    ((s.feed [(none, text)]).feed [(none, text')]).AreTwins False
      ((s.feed [(none, text')]).feed [(none, text)]) := by
  obtain ⟨T, ht⟩ := hs.lowering
  obtain ⟨hevaluates₁, hlowering₁⟩ := feed_statement htext s
  obtain ⟨hevaluates₂, hlowering₂⟩ := feed_statement htext' s
  obtain ⟨hevaluates₁₂, hlowering₁₂⟩ := feed_statement htext' (s.feed [(none, text)])
  obtain ⟨hevaluates₂₁, hlowering₂₁⟩ := feed_statement htext (s.feed [(none, text')])
  constructor
  · rw [hevaluates₁₂, hevaluates₁, hevaluates₂₁, hevaluates₂]
  · rw [hlowering₁₂, hlowering₁, hlowering₂₁, hlowering₂]
    exact ⟨_, Lowering.twins_taking hst hst' (named_of_ofText htext) (named_of_ofText htext') hind
      ht.holds ht.orderly⟩

end EitherOrder

/-- **Independent declarations commute.** Let a session have been fed any texts, and let two lines
be one definition or declaration each, of different names, of which neither calls the other. Then
each of the lines is answered the same before and after the other one, whether it is accepted or
rejected. And whatever texts follow the two, every further line is answered the same in either
order, with the same bytes, the same notes and the same success or failure. The text of the module
consists of the same header and the same functions, which may be in another order. -/
theorem independent_declarations_commute (name : String) (evaluates : Bool)
    (before : List (Option Nat × String)) {text text' : String} {st st' : Statement}
    (htext : Script.ofText text = ⟨[.statement st], none⟩)
    (htext' : Script.ofText text' = ⟨[.statement st'], none⟩)
    (hst : st.Declares) (hst' : st'.Declares) (hind : st.Independent st') :
    let s := (start name evaluates).feed before
    reply (handle text) (s.withRoom none) =
        reply (handle text) ((s.feed [(none, text')]).withRoom none) ∧
      reply (handle text') (s.withRoom none) =
        reply (handle text') ((s.feed [(none, text)]).withRoom none) ∧
      ∀ later room,
        let s₁ := s.feed ((none, text) :: (none, text') :: later)
        let s₂ := s.feed ((none, text') :: (none, text) :: later)
        let m₁ := s₁.lowering.program
        let m₂ := s₂.lowering.program
        (∀ line, reply (handle line) (s₁.withRoom room) = reply (handle line) (s₂.withRoom room)) ∧
          m₁.name = m₂.name ∧ ∃ texts texts', texts.Perm texts' ∧
            m₁.handles.mapM m₁.functionText? = some texts ∧
            m₁.text? = some ("; ModuleID = '" ++ m₁.name ++ "'\n" ++
              String.join (texts.map ("\n" ++ ·))) ∧
            m₂.handles.mapM m₂.functionText? = some texts' ∧
            m₂.text? = some ("; ModuleID = '" ++ m₂.name ++ "'\n" ++
              String.join (texts'.map ("\n" ++ ·))) := by
  intro s
  have hs : s.AreTwins True s := (areTwins_start name evaluates).feed before
  obtain ⟨T, ht⟩ := hs.lowering
  refine ⟨reply_handle_feed htext htext' hst hst' hind ht.holds,
    reply_handle_feed htext' htext hst' hst hind.symm ht.holds, fun later room ↦ ?_⟩
  intro s₁ s₂ m₁ m₂
  have htwins : s₁.AreTwins False s₂ :=
    (areTwins_feed_feed htext htext' hst hst' hind hs).feed later
  obtain ⟨T', ht'⟩ := htwins.lowering
  obtain ⟨texts, texts', hperm, htexts, htexts'⟩ := ht'.exists_texts_perm
  refine ⟨htwins.reply_handle room, ht'.name, texts, texts', hperm, htexts, ?_, htexts', ?_⟩
  · rw [Module.text?, htexts]
    rfl
  · rw [Module.text?, htexts']
    rfl

/-- A definition and a declaration in either order. -/
theorem definition_and_declaration_commute :
    Script.ofText "def f(x) x" = ⟨[.statement (.definition ⟨⟨"f", ["x"]⟩, .name "x"⟩)], none⟩ ∧
      Script.ofText "extern g(y)" = ⟨[.statement (.declaration ⟨"g", ["y"]⟩)], none⟩ ∧
      Statement.Independent (.definition ⟨⟨"f", ["x"]⟩, .name "x"⟩) (.declaration ⟨"g", ["y"]⟩) ∧
      ∀ later room line,
        reply (handle line) (((start "m" true).feed []).feed
            ((none, "def f(x) x") :: (none, "extern g(y)") :: later) |>.withRoom room) =
          reply (handle line) (((start "m" true).feed []).feed
            ((none, "extern g(y)") :: (none, "def f(x) x") :: later) |>.withRoom room) := by
  have hdefinition : (Cursor.ofString "def f(x) x").stream =
      ⟨[.defKeyword, .identifier "f", .symbol '(', .identifier "x", .symbol ')', .identifier "x"],
        none⟩ :=
    open Cursor in
    stream_of_call rfl <| stream_of_call rfl <| stream_of_call rfl <| stream_of_call rfl <|
      stream_of_call rfl <| stream_of_call rfl <| stream_of_call_end rfl
  have hdeclaration : (Cursor.ofString "extern g(y)").stream =
      ⟨[.externKeyword, .identifier "g", .symbol '(', .identifier "y", .symbol ')'], none⟩ :=
    open Cursor in
    stream_of_call rfl <| stream_of_call rfl <| stream_of_call rfl <| stream_of_call rfl <|
      stream_of_call rfl <| stream_of_call_end rfl
  have hread : readStatement none [.defKeyword, .identifier "f", .symbol '(', .identifier "x",
      .symbol ')', .identifier "x"] =
        .read (.definition ⟨⟨"f", ["x"]⟩, .name "x"⟩) [] (by decide) := by
    simp [readStatement, readDefinition, readDeclaration, readPrototype, readNames,
      readExpr.eq_def, readPrimary.eq_def, readOperators.eq_def, Reading.bind, Reading.stepOver,
      Reading.widen, Reading.close, TokenStream.blocking?]
  have hread' : readStatement none [.externKeyword, .identifier "g", .symbol '(', .identifier "y",
      .symbol ')'] = .read (.declaration ⟨"g", ["y"]⟩) [] (by decide) := by
    simp [readStatement, readDeclaration, readPrototype, readNames, Reading.bind,
      Reading.stepOver, Reading.widen, Reading.close, TokenStream.blocking?]
  have htext := Script.ofText_of_read (by decide) hdefinition hread
  have htext' := Script.ofText_of_read (by decide) hdeclaration hread'
  have hind : Statement.Independent (.definition ⟨⟨"f", ["x"]⟩, .name "x"⟩)
      (.declaration ⟨"g", ["y"]⟩) := ⟨by decide, by simp [Statement.callees, Expr.callees],
    by simp [Statement.callees]⟩
  exact ⟨htext, htext', hind, fun later room ↦
    ((independent_declarations_commute "m" true [] htext htext' trivial trivial hind).2.2 later
      room).1⟩

end Session

end FloatLang
