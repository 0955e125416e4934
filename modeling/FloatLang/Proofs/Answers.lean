import FloatLang.Proofs.Agreement
import FloatLang.Proofs.CallTree
import FloatLang.Proofs.Runs

/-!
# What a session answers

With room for everything, what a session answers to an item is a function of what has been lowered
before: the text that is shown, the line about the value of a top-level expression, whether all of
the text exists, and what has been lowered afterwards. Whether expressions are run decides about one
thing only, namely whether that line is written. `Answer` puts these together, and `gives_answer`
says that a session does what the answer says.

So two sessions that have lowered the same, of which one runs expressions and the other does not,
go through the same answers, for any module whatever. They end every line in the same way, have
lowered the same after each, and what the second one writes is what the first one writes without the
lines about values. This is `evaluation_only_observes`; in a session that a run can come to, those
lines stand exactly behind the top-level expressions that have been shown.
-/

namespace FloatLang

open Ssa

/-! ## Answers -/

/-- What an item is answered with. -/
structure Answer where
  /-- What is written in any case. -/
  shown : String
  /-- The line that is written besides if expressions are run. -/
  evaluation? : Option String
  /-- Whether all of the text exists that is to be shown. -/
  complete : Bool
  /-- What has been lowered afterwards. -/
  left : Lowering

namespace Answer

/-- A heading and the text of a function, if that exists. -/
def presenting (heading : String) (h : FunctionId) (l : Lowering) : Answer :=
  match l.program.functionText? h with
  | some listing => ⟨heading ++ "\n" ++ listing, none, true, l⟩
  | none => ⟨heading ++ "\n", none, false, l⟩

/-- A top-level expression that has been lowered as `h`. If it can be presented, it is run, and
erased again. -/
def evaluating (h : FunctionId) (l : Lowering) : Answer :=
  match l.program.functionText? h with
  | some listing =>
    ⟨"Read top-level expression:" ++ "\n" ++ listing,
      some (Session.answerText ((l.program.run h []).run #[])), true,
      { l with program := l.program.erase h }⟩
  | none => ⟨"Read top-level expression:" ++ "\n", none, false, l⟩

def reporting (e : Error) (l : Lowering) : Answer :=
  ⟨"Error: " ++ e.message ++ "\n", none, true, l⟩

def text (a : Answer) (evaluates : Bool) : String :=
  a.shown ++ if evaluates then a.evaluation?.getD "" else ""

/-- How answering ends. -/
def ending (a : Answer) : Except Error Unit := if a.complete then .ok () else .error .unprintable

private theorem text_of_evaluation?_eq_none {a : Answer} (ha : a.evaluation? = none)
    (evaluates : Bool) :
    a.text evaluates = a.shown := by
  rw [text, ha, Option.getD_none, ite_self, String.append_empty]

end Answer

namespace Lowering

/-- What an item is answered with. -/
def answer (l : Lowering) : Item → Answer
  | .statement (.definition d) =>
    match l.define d with
    | (.ok h, l') => .presenting "Read function definition:" h l'
    | (.error e, l') => .reporting (.lowering e) l'
  | .statement (.declaration p) => .presenting "Read extern:" (l.declare p).1 (l.declare p).2
  | .statement (.expression e) =>
    match l.define (.ofExpr e) with
    | (.ok h, l') => .evaluating h l'
    | (.error e, l') => .reporting (.lowering e) l'
  | .misread what => .reporting (.reading (.expected what)) l

/-- What the items of a line are answered with. After an answer that is not complete the others are
given up. -/
def answers (l : Lowering) : List Item → List Answer
  | [] => []
  | i :: items =>
    l.answer i :: if (l.answer i).complete then (l.answer i).left.answers items else []

def answered (l : Lowering) : List Item → Lowering
  | [] => l
  | i :: items =>
    if (l.answer i).complete then (l.answer i).left.answered items else (l.answer i).left

def ending (l : Lowering) (fault : Option LexError) : List Item → Except Error Unit
  | [] => fault.elim (.ok ()) fun e ↦ .error (.lex e)
  | i :: items =>
    if (l.answer i).complete then (l.answer i).left.ending fault items else (l.answer i).ending

/-- What lines are answered with. A line that fails does not keep the next one from being read. -/
def answersTo (l : Lowering) : List String → List Answer
  | [] => []
  | line :: lines =>
    l.answers (Script.ofText line).items ++ (l.answered (Script.ofText line).items).answersTo lines

def answeredTo (l : Lowering) (lines : List String) : Lowering :=
  lines.foldl (fun l line ↦ l.answered (Script.ofText line).items) l

end Lowering

namespace Session

/-! ## Sessions give the answers -/

def textOf (evaluates : Bool) (as : List Answer) : String :=
  String.join (as.map fun a ↦ a.text evaluates)

@[simp] theorem textOf_nil (evaluates : Bool) : textOf evaluates [] = "" := rfl

theorem textOf_cons (evaluates : Bool) (a : Answer) (as : List Answer) :
    textOf evaluates (a :: as) = a.text evaluates ++ textOf evaluates as := by
  rw [textOf, textOf, List.map_cons, String.join_cons]

theorem textOf_append (evaluates : Bool) (as later : List Answer) :
    textOf evaluates (as ++ later) = textOf evaluates as ++ textOf evaluates later := by
  rw [textOf, textOf, textOf, List.map_append, String.join_append]

variable {s : Session}

/-- The action ends as the answer says, having written what it says. -/
def Gives (x : Action Unit) (s : Session) (a : Answer) : Prop :=
  ∃ s' printed, x.run s = ended a.ending s' ∧
    Told { s with lowering := a.left } s' (a.text s.evaluates) printed

theorem Gives.of_lowered {x y : Action Unit} {a : Answer} {lines : List Note} {l : Lowering}
    (hroom : s.console.out.room = none) (hlines : ∀ n ∈ lines, n.plain? = none)
    (hrun : x.run s = y.run { s.noted lines with lowering := l })
    (hy : Gives y { s.noted lines with lowering := l } a) : Gives x s a := by
  obtain ⟨s', printed, hrun', htold⟩ := hy
  have hlogged :
      Told { s with lowering := a.left } { s.noted lines with lowering := a.left } "" [] :=
    told_logged (s := { s with lowering := a.left }) hroom hlines
  have hboth := hlogged.trans htold
  rw [String.empty_append] at hboth
  exact ⟨s', _, hrun.trans hrun', hboth⟩

/-- What is told is given, if there is no line about a value. -/
theorem Gives.of_told {x : Action Unit} {a : Answer} {s' : Session} {printed : List String}
    (ha : a.evaluation? = none) (hrun : x.run s = ended a.ending s')
    (htold : Told { s with lowering := a.left } s' a.shown printed) : Gives x s a :=
  ⟨s', printed, hrun, by rwa [Answer.text_of_evaluation?_eq_none ha]⟩

private theorem run_present_of_eq_none (heading : String) {h : FunctionId}
    (hroom : s.console.out.room = none) (hnone : s.lowering.program.functionText? h = none) :
    ∃ s', (present heading h).run s = .error .unprintable s' ∧ Told s s' (heading ++ "\n") [] := by
  obtain ⟨s', hrun, htold⟩ := tells_write (heading ++ "\n") s hroom
  refine ⟨s', ?_, htold⟩
  rw [present, run_bind_of_run_ok hrun, EStateM.run_bind, EStateM.run_get]
  simp only [htold.lowering, hnone]
  rfl

private theorem gives_present (heading : String) (h : FunctionId)
    (hroom : s.console.out.room = none) :
    Gives (present heading h) s (.presenting heading h s.lowering) := by
  rw [Answer.presenting]
  cases hlisting : s.lowering.program.functionText? h with
  | some listing =>
    obtain ⟨s', hrun, htold⟩ := run_present heading hroom hlisting
    exact .of_told rfl hrun htold
  | none =>
    obtain ⟨s', hrun, htold⟩ := run_present_of_eq_none heading hroom hlisting
    exact .of_told rfl hrun htold

private theorem gives_report (e : Error) (hroom : s.console.out.room = none) :
    Gives (report e) s (.reporting e s.lowering) := by
  obtain ⟨s', hrun, htold⟩ := tells_report e s hroom
  exact .of_told rfl hrun htold

theorem Told.lowered {s' : Session} {text : String} {printed : List String} {l : Lowering}
    (htold : Told { s with lowering := l } s' text printed) (change : Lowering → Lowering) :
    Told { s with lowering := change l } { s' with lowering := change s'.lowering } text
      printed where
  lowering := by rw [htold.lowering]
  evaluates := htold.evaluates
  room := htold.room
  written := htold.written
  plain := htold.plain

private theorem gives_evaluating (h : FunctionId) (hroom : s.console.out.room = none) :
    Gives (do
      present "Read top-level expression:" h
      if (← get).evaluates then ensuring (evaluate h) (erase h) else erase h) s
      (.evaluating h s.lowering) := by
  rw [Answer.evaluating]
  cases hlisting : s.lowering.program.functionText? h with
  | none =>
    obtain ⟨s₁, hpresent, htold₁⟩ :=
      run_present_of_eq_none "Read top-level expression:" hroom hlisting
    refine .of_told rfl ?_ htold₁
    rw [EStateM.run_bind, hpresent]
    rfl
  | some listing =>
    obtain ⟨s₁, hpresent, htold₁⟩ := run_present "Read top-level expression:" hroom hlisting
    let erased (l : Lowering) : Lowering := { l with program := l.program.erase h }
    rw [Gives, run_bind_of_run_ok hpresent, EStateM.run_bind, EStateM.run_get, Answer.text]
    simp only
    rw [htold₁.evaluates]
    by_cases heval : s.evaluates = true
    · obtain ⟨s₂, hevaluate, htold₂⟩ := run_evaluate (h := h) htold₁.room
      rw [htold₁.lowering] at htold₂
      rw [if_pos heval, if_pos heval]
      -- the evaluation ends without a failure, and what is ensured afterwards is erasing
      refine ⟨_, _, ?_, (htold₁.trans htold₂).lowered erased⟩
      show ensuring (evaluate h) (erase h) s₁ = _
      rw [ensuring.eq_def]
      simp only [hevaluate]
      rfl
    · rw [if_neg heval, if_neg heval, String.append_empty]
      exact ⟨_, [], rfl, htold₁.lowered erased⟩

/-- **A session with room for everything gives the answers.** -/
theorem gives_answer (hroom : s.console.out.room = none) (i : Item) :
    Gives (actItem i) s (s.lowering.answer i) := by
  rcases i with (d | p | e) | what
  · obtain ⟨lines, hlines, hrun⟩ := run_performDefinition d s
    rw [Lowering.answer]
    rcases hdefine : s.lowering.define d with ⟨e | h, l⟩
    · rw [hdefine] at hrun
      exact .of_lowered hroom hlines hrun (gives_report (.lowering e) hroom)
    · rw [hdefine] at hrun
      exact .of_lowered hroom hlines hrun (gives_present _ h hroom)
  · obtain ⟨lines, hlines, hrun⟩ := run_performDeclaration p s
    exact .of_lowered hroom hlines hrun (gives_present _ _ hroom)
  · obtain ⟨lines, hlines, hrun⟩ := run_performExpression e s
    rw [Lowering.answer]
    rcases hdefine : s.lowering.define (.ofExpr e) with ⟨err | h, l⟩
    · rw [hdefine] at hrun
      exact .of_lowered hroom hlines hrun (gives_report (.lowering err) hroom)
    · rw [hdefine] at hrun
      exact .of_lowered hroom hlines hrun (gives_evaluating h hroom)
  · exact gives_report _ hroom

/-- The items of a line are answered up to the first answer that is not complete. -/
theorem run_act (hroom : s.console.out.room = none) (fault : Option LexError) (items : List Item) :
    ∃ s' printed, (act ⟨items, fault⟩).run s = ended (s.lowering.ending fault items) s' ∧
      Told { s with lowering := s.lowering.answered items } s'
        (textOf s.evaluates (s.lowering.answers items)) printed := by
  induction items generalizing s with
  | nil =>
    refine ⟨s, [], ?_, told_noted hroom []⟩
    cases fault <;> rfl
  | cons i items ih =>
    obtain ⟨s₁, printed₁, hrun₁, htold₁⟩ := gives_answer hroom i
    rw [show act ⟨i :: items, fault⟩ = _ from act_cons i ⟨items, fault⟩, Lowering.ending,
      Lowering.answered, Lowering.answers, textOf_cons]
    rw [Answer.ending] at hrun₁
    by_cases hcomplete : (s.lowering.answer i).complete = true
    · rw [if_pos hcomplete] at hrun₁
      obtain ⟨s₂, printed₂, hrun₂, htold₂⟩ := ih htold₁.room
      have htold := (htold₁.lowered fun l ↦ l.answered items).trans htold₂
      rw [htold₁.evaluates, htold₁.lowering] at htold
      rw [htold₁.lowering] at hrun₂
      rw [if_pos hcomplete, if_pos hcomplete, if_pos hcomplete, run_bind_of_run_ok hrun₁]
      exact ⟨s₂, _, hrun₂, htold⟩
    · rw [if_neg hcomplete] at hrun₁
      rw [if_neg hcomplete, if_neg hcomplete, if_neg hcomplete, textOf_nil, String.append_empty,
        EStateM.run_bind, hrun₁, Answer.ending, if_neg hcomplete]
      exact ⟨s₁, printed₁, rfl, htold₁⟩

theorem run_handle (hroom : s.console.out.room = none) (line : String) :
    ∃ s' printed, (handle line).run s =
        ended (s.lowering.ending (Script.ofText line).fault (Script.ofText line).items) s' ∧
      Told { s with lowering := s.lowering.answered (Script.ofText line).items } s'
        (textOf s.evaluates (s.lowering.answers (Script.ofText line).items)) printed := by
  rw [handle_eq]
  exact run_act hroom _ _

theorem after_of_run_ended {α : Type} {x : Action α} {s s' : Session} {r : Except Error α}
    (hx : x.run s = ended r s') : after x s = s' := by
  cases r with
  | ok a => exact after_of_run_ok hx
  | error e => exact after_of_run_error hx

private theorem told_handled (hroom : s.console.out.room = none) (lines : List String) :
    ∃ printed, Told { s with lowering := s.lowering.answeredTo lines } (s.handled lines)
      (textOf s.evaluates (s.lowering.answersTo lines)) printed := by
  induction lines generalizing s with
  | nil => exact ⟨[], told_noted hroom []⟩
  | cons line lines ih =>
    obtain ⟨s₁, printed₁, hrun₁, htold₁⟩ := run_handle hroom line
    obtain ⟨printed₂, htold₂⟩ := ih htold₁.room
    have htold := (htold₁.lowered fun l ↦ l.answeredTo lines).trans htold₂
    rw [htold₁.evaluates, htold₁.lowering] at htold
    rw [Lowering.answersTo, textOf_append, handled, List.foldl_cons, after_of_run_ended hrun₁]
    exact ⟨_, htold⟩

end Session

/-! ## Sessions that a run can come to -/

/-- The answer is complete. A line about a value stands behind every top-level expression that has
been shown and nowhere else, and says what the value is or why there is none. -/
structure Answer.Regular (a : Answer) : Prop where
  complete : a.complete = true
  isSome_evaluation?_iff :
    a.evaluation?.isSome = true ↔ ∃ listing, a.shown = "Read top-level expression:\n" ++ listing
  evaluation? : ∀ line, a.evaluation? = some line →
    (∃ v : Double, line = "Evaluated to " ++ v.display ++ "\n") ∨
      ∃ detail, line = "Error: evaluation failed: " ++ detail ++ "\n"

namespace Answer

/-- An answer that begins otherwise than that to a top-level expression needs no line about a
value. -/
private theorem regular_of_shown {shown : String} {l : Lowering}
    (hshown : shown.toList[5]? ≠ some 't') : Regular ⟨shown, none, true, l⟩ where
  complete := rfl
  isSome_evaluation?_iff := by
    refine ⟨nofun, ?_⟩
    rintro ⟨listing, hlisting⟩
    have hlisting : shown = "Read top-level expression:\n" ++ listing := hlisting
    rw [hlisting] at hshown
    exact absurd (by simp) hshown
  evaluation? := nofun

private theorem regular_reporting (e : Error) (l : Lowering) : (reporting e l).Regular :=
  regular_of_shown (by simp)

private theorem regular_presenting {heading : String}
    (hheading : heading.toList[5]? ∉ [none, some 't'])
    {l : Lowering} (hl : l.program.WellFormed) (h : FunctionId) :
    (presenting heading h l).Regular := by
  obtain ⟨listing, hlisting⟩ := hl.exists_functionText? h
  rw [presenting, hlisting]
  simp only [List.mem_cons, List.not_mem_nil, or_false, not_or] at hheading
  refine regular_of_shown fun hshown ↦ hheading.2 ?_
  have hlt : 5 < heading.toList.length := by
    by_contra hge
    exact hheading.1 (List.getElem?_eq_none (by omega))
  rw [String.toList_append, String.toList_append, List.append_assoc,
    List.getElem?_append_left hlt] at hshown
  exact hshown

/-- In a well-formed module a run that fails does so with an error of the evaluation. -/
private theorem regular_evaluating {l : Lowering} (hl : l.program.WellFormed) {h : FunctionId}
    {f : Function} (hf : l.program.find? h = some f) (hparams : f.params = []) :
    (evaluating h l).Regular := by
  obtain ⟨listing, hlisting⟩ := hl.exists_functionText? h
  have hends :
      Ends (l.program.run h []) (fun _ ↦ True) (l.program.firstOffence? (maxDepth + 1) h) :=
    Module.ends_call hl (maxDepth + 1) hf (by rw [hparams]; rfl)
  rw [evaluating, hlisting]
  refine ⟨rfl, iff_of_true rfl ⟨listing, rfl⟩, fun line hline ↦ ?_⟩
  obtain rfl := Option.some.inj hline
  have hfailure := hends.failure?_eq #[]
  cases hrun : (l.program.run h []).run #[] with
  | ok v printed => exact .inl ⟨v, rfl⟩
  | error e printed =>
    rw [hrun] at hfailure
    rcases Module.firstOffence?_eq_some hfailure.symm with rfl | ⟨name, rfl⟩
    · exact .inr ⟨_, rfl⟩
    · exact .inr ⟨_, rfl⟩

end Answer

namespace Lowering

variable {l : Lowering}

theorem exists_holds_answer (hl : ∃ T, l.program.Holds T) {i : Item} (hi : i.Named) :
    ∃ T, (l.answer i).left.program.Holds T := by
  let s : Session := ⟨l, false, .fresh⟩
  obtain ⟨s', printed, hrun, htold⟩ := Session.gives_answer (s := s) rfl i
  have hT := Session.exists_holds_actItem (s := s) hl hi
  rwa [Session.after_of_run_ended hrun, htold.lowering] at hT

private theorem regular_answer (hl : ∃ T, l.program.Holds T) {i : Item} (hi : i.Named) :
    (l.answer i).Regular := by
  obtain ⟨T, hT⟩ := hl
  rcases i with (d | p | e) | what
  · rw [answer]
    rcases hdefine : l.define d with ⟨err | h, l'⟩
    · exact Answer.regular_reporting _ _
    · exact Answer.regular_presenting (by decide) (holds_define hT hi.body hdefine).wellFormed h
  · exact Answer.regular_presenting (by decide) (holds_declare hT p).wellFormed _
  · rw [answer]
    rcases hdefine : l.define (.ofExpr e) with ⟨err | h, l'⟩
    · exact Answer.regular_reporting _ _
    · obtain ⟨-, f, v, steps, hc⟩ := exists_completes hT.toSettled hdefine
      refine Answer.regular_evaluating
        (holds_define hT (d := .ofExpr e) hi hdefine).wellFormed hc.find?_self ?_
      rw [← List.length_eq_zero_iff, Function.length_params_completed, hc.length_params]
      rfl
  · exact Answer.regular_reporting _ _

theorem regular_answers (hl : ∃ T, l.program.Holds T) {items : List Item}
    (hitems : ∀ i ∈ items, i.Named) :
    (∀ a ∈ l.answers items, a.Regular) ∧ ∃ T, (l.answered items).program.Holds T := by
  induction items generalizing l with
  | nil => exact ⟨nofun, hl⟩
  | cons i items ih =>
    have hi := hitems i List.mem_cons_self
    have hregular := regular_answer hl hi
    obtain ⟨hrest, hT⟩ :=
      ih (exists_holds_answer hl hi) fun j hj ↦ hitems j (List.mem_cons_of_mem _ hj)
    constructor
    · rw [answers, if_pos hregular.complete]
      exact List.forall_mem_cons.mpr ⟨hregular, hrest⟩
    · rwa [answered, if_pos hregular.complete]

theorem regular_answersTo (hl : ∃ T, l.program.Holds T) (lines : List String) :
    ∀ a ∈ l.answersTo lines, a.Regular := by
  induction lines generalizing l with
  | nil => exact nofun
  | cons line lines ih =>
    obtain ⟨hline, hT⟩ := regular_answers hl (Script.named_ofText line)
    exact fun a ha ↦ (List.mem_append.mp ha).elim (hline a) (ih hT a)

end Lowering

/-! ## What is left -/

private theorem Answer.left_presenting (heading : String) (h : FunctionId) (l : Lowering) :
    (Answer.presenting heading h l).left = l := by
  rw [presenting]
  split <;> rfl

namespace Lowering

variable {l l' : Lowering} {h : FunctionId}

theorem left_answer_definition (l : Lowering) (d : Definition) :
    (l.answer (.statement (.definition d))).left = (l.define d).2 := by
  rw [answer]
  rcases l.define d with ⟨e | h, l'⟩
  · rfl
  · exact Answer.left_presenting _ _ _

theorem left_answer_declaration (l : Lowering) (p : Prototype) :
    (l.answer (.statement (.declaration p))).left = (l.declare p).2 :=
  Answer.left_presenting _ _ _

theorem left_answer_rejected {e : Expr} {err : LoweringError}
    (hdefine : l.define (.ofExpr e) = (.error err, l')) :
    (l.answer (.statement (.expression e))).left = l' := by
  rw [answer, hdefine]
  rfl

theorem left_answer_expression (hl : ∃ T, l.program.Holds T) {e : Expr} (he : e.Named)
    (hdefine : l.define (.ofExpr e) = (.ok h, l')) :
    (l.answer (.statement (.expression e))).left =
      { l' with program := l'.program.erase h } := by
  have hregular := regular_answer hl (i := .statement (.expression e)) he
  rw [answer, hdefine] at hregular ⊢
  simp only [Answer.evaluating] at hregular ⊢
  split at hregular
  · rfl
  · cases hregular.complete

private theorem lookup?_erase_expression (hm : l.program.Settled) {e : Expr}
    (hdefine : l.define (.ofExpr e) = (.ok h, l')) : (l'.program.erase h).lookup? "" = none := by
  obtain ⟨-, f, v, steps, hc⟩ := exists_completes hm hdefine
  have hname : (f.completed [] steps v).name = "" := Function.name_completed.trans hc.name
  have hl : l'.program.lookup? "" = some h := (hc.lookup? "").trans (if_pos rfl)
  rw [Module.lookup?_erase, if_pos]
  refine ⟨hl, ?_⟩
  rw [hc.find?_self]
  exact congrArg some hname

/-- Once an item has been answered, no function is without a name. -/
theorem lookup?_answer (hl : ∃ T, l.program.Holds T) (hnone : l.program.lookup? "" = none)
    {i : Item} (hi : i.Named) : (l.answer i).left.program.lookup? "" = none := by
  have hm : l.program.Settled := by
    obtain ⟨T, hT⟩ := hl
    exact hT.toSettled
  rcases i with (d | p | e) | what
  · have hne : "" ≠ d.proto.name := fun hname ↦ hi.proto hname.symm
    rw [left_answer_definition, lookup?_define_of_ne hm hne, hnone]
  · have hne : "" ≠ p.name := fun hname ↦ hi hname.symm
    rw [left_answer_declaration, lookup?_declare_of_ne l hne, hnone]
  · rcases hdefine : l.define (.ofExpr e) with ⟨err | h, l'⟩
    · rw [left_answer_rejected hdefine]
      exact ((views_of_define_error hm hdefine).1 "").trans hnone
    · rw [left_answer_expression hl hi hdefine]
      exact lookup?_erase_expression hm hdefine
  · exact hnone

end Lowering

namespace Session

/-- The session has room for everything, and what it has lowered is the translation of some
sources. -/
structure Unhindered (s : Session) : Prop where
  holds : ∃ T, s.lowering.program.Holds T
  room : s.console.out.room = none

theorem Reachable.unhindered {s : Session} (hs : s.Reachable) : (s.withRoom none).Unhindered :=
  ⟨hs.exists_holds, rfl⟩

namespace Unhindered

variable {s : Session}

theorem run_actItem (hs : s.Unhindered) {i : Item} (hi : i.Named) :
    ∃ s' printed, (actItem i).run s = .ok () s' ∧ s'.Unhindered ∧
      Told { s with lowering := (s.lowering.answer i).left } s'
        ((s.lowering.answer i).text s.evaluates) printed := by
  obtain ⟨s', printed, hrun, htold⟩ := gives_answer hs.room i
  rw [Answer.ending, if_pos (Lowering.regular_answer hs.holds hi).complete] at hrun
  refine ⟨s', printed, hrun, ⟨?_, htold.room⟩, htold⟩
  rw [htold.lowering]
  exact Lowering.exists_holds_answer hs.holds hi

private theorem after_actItem (hs : s.Unhindered) {i : Item} (hi : i.Named) :
    (after (actItem i) s).Unhindered := by
  obtain ⟨s', printed, hrun, hs', -⟩ := hs.run_actItem hi
  rwa [after_of_run_ok hrun]

theorem acted (hs : s.Unhindered) {items : List Item} (hitems : ∀ i ∈ items, i.Named) :
    (s.acted items).Unhindered := by
  induction items generalizing s with
  | nil => exact hs
  | cons i items ih =>
    exact ih (hs.after_actItem (hitems i List.mem_cons_self)) fun j hj ↦
      hitems j (List.mem_cons_of_mem _ hj)

theorem run_act (hs : s.Unhindered) {items : List Item} (hitems : ∀ i ∈ items, i.Named)
    (fault : Option LexError) :
    (act ⟨items, fault⟩).run s =
      ended (fault.elim (.ok ()) fun e ↦ .error (.lex e)) (s.acted items) := by
  induction items generalizing s with
  | nil => cases fault <;> rfl
  | cons i items ih =>
    obtain ⟨s', printed, hrun, hs', -⟩ := hs.run_actItem (hitems i List.mem_cons_self)
    rw [show act ⟨i :: items, fault⟩ = _ from act_cons i ⟨items, fault⟩, run_bind_of_run_ok hrun,
      ih hs' fun j hj ↦ hitems j (List.mem_cons_of_mem _ hj), Session.acted, Session.acted,
      List.foldl_cons, after_of_run_ok hrun]

theorem after_handle (hs : s.Unhindered) (text : String) :
    after (handle text) s = s.acted (Script.ofText text).items := by
  rw [handle_eq]
  exact after_of_run_ended (hs.run_act (Script.named_ofText text) (Script.ofText text).fault)

theorem handled_eq (hs : s.Unhindered) (lines : List String) :
    s.handled lines = s.acted (Script.itemsOf lines) := by
  induction lines generalizing s with
  | nil => rfl
  | cons line lines ih =>
    rw [handled, List.foldl_cons, ← handled, hs.after_handle,
      ih (hs.acted (Script.named_ofText line)), Script.itemsOf, Script.itemsOf, List.flatMap_cons]
    exact List.foldl_append.symm

end Unhindered

/-- **Evaluation only observes.** Let two sessions have lowered the same, of which one runs
expressions and the other does not, and let there be room for everything. Then every line ends in
the same way in both, what has been lowered is the same after each, and the second one writes what
the first one writes without the lines about values. If a run can come to the sessions, such a line
stands behind every top-level expression that is shown and nowhere else. -/
theorem evaluation_only_observes (s : Session) (lines : List String) :
    let on : Session := { s with evaluates := true, console := .fresh }
    let off : Session := { s with evaluates := false, console := .fresh }
    let as := s.lowering.answersTo lines
    (∀ line, ∃ r t t', (handle line).run (on.handled lines) = ended r t ∧
      (handle line).run (off.handled lines) = ended r t') ∧
    (on.handled lines).lowering = (off.handled lines).lowering ∧
    (on.handled lines).console.out.written =
      (String.join (as.map fun a ↦ a.shown ++ a.evaluation?.getD "")).toUTF8 ∧
    (off.handled lines).console.out.written =
      (String.join (as.map fun a ↦ a.shown)).toUTF8 ∧
    (s.Reachable → ∀ a ∈ as, a.Regular) := by
  intro on off as
  obtain ⟨_, hon⟩ := told_handled (s := on) rfl lines
  obtain ⟨_, hoff⟩ := told_handled (s := off) rfl lines
  refine ⟨fun line ↦ ?_, hon.lowering.trans hoff.lowering.symm, ?_, ?_,
    fun hs ↦ Lowering.regular_answersTo hs.exists_holds lines⟩
  · obtain ⟨t, _, hrun, -⟩ := run_handle hon.room line
    obtain ⟨t', _, hrun', -⟩ := run_handle hoff.room line
    rw [hon.lowering] at hrun
    rw [hoff.lowering] at hrun'
    exact ⟨_, t, t', hrun, hrun'⟩
  · exact hon.written.trans ByteArray.empty_append
  · have hshown : textOf false as = String.join (as.map fun a ↦ a.shown) := by
      rw [textOf]
      congr 2
      funext a
      rw [Answer.text, if_neg Bool.false_ne_true, String.append_empty]
    rw [← hshown]
    exact hoff.written.trans ByteArray.empty_append

/-- The value of a number is answered where values are asked for. -/
theorem evaluation_only_observes_number :
    Reachable (start "m" true) ∧
      ∀ a ∈ (start "m" true).lowering.answersTo ["1", "f()"], a.Regular := by
  have hstart : Reachable (start "m" true) := ⟨"m", true, .refl⟩
  exact ⟨hstart, (evaluation_only_observes (start "m" true) ["1", "f()"]).2.2.2.2 hstart⟩

end Session

end FloatLang
