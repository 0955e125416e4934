import FloatLang.Proofs.Interpreter
import FloatLang.Proofs.Rollback
import FloatLang.Proofs.WellFormed

/-!
# A session answers as the interpreter does

The interpreter of sources becomes an interpreter of sessions once it is said which statements it
accepts: a definition unless the name has an expression already, or parameters of another number, or
the expression uses something that there is not; a declaration always; a top-level expression if it
uses nothing that there is not. It keeps no functions and no instructions, only `Sources`.

A session that can write everything and runs expressions goes through the same sources. Whatever
lines it is given, it lowers the top-level expressions that the interpreter accepts, and for each of
them it prints what the interpreter prints, and answers the value or the failure that the
interpreter comes to.
-/

namespace FloatLang

open Ssa

/-! ## What is accepted -/

mutual

/-- Whether an expression uses only the parameters, the operators of the language, and functions
that there are with the right number of arguments. -/
def Expr.usable (T : Sources) (params : List String) : Expr → Bool
  | .number _ => true
  | .name x => params.contains x
  | .binary op lhs rhs =>
    ['+', '-', '*', '<'].contains op && lhs.usable T params && rhs.usable T params
  | .call callee args =>
    (match T callee with
      | some src => src.params.length == args.length
      | none => false) && Expr.allUsable T params args

def Expr.allUsable (T : Sources) (params : List String) : List Expr → Bool
  | [] => true
  | e :: es => e.usable T params && Expr.allUsable T params es

end

namespace Sources

/-- Whether a definition is accepted. Its expression may use the function itself. -/
def accepts (T : Sources) (d : Definition) : Bool :=
  (match T d.proto.name with
    | some src => src.body?.isNone && src.params.length == d.proto.params.length
    | none => true) && d.body.usable (T.define d) d.proto.params

/-- The sources after an item of a script. -/
def after (T : Sources) : Item → Sources
  | .statement (.definition d) => if T.accepts d then T.define d else T
  | .statement (.declaration p) => T.declare p
  | .statement (.expression _) => T
  | .misread _ => T

end Sources

section Acceptance

open Translation

variable {callee? : String → Option (FunctionId × Nat)} {scope : Scope} {T : Sources}
  {params : List String}

private theorem exists_translateOperation (op : BinaryOp) (l r : Value) (base : String) (n : Nat) :
    ∃ p, translateOperation op l r base n = .ok p := by
  unfold translateOperation
  split <;> exact ⟨_, rfl⟩

theorem exists_translateBinary_iff {op : Char} {l r : Value} {n : Nat} :
    (∃ p, translateBinary op l r n = .ok p) ↔ ['+', '-', '*', '<'].contains op = true := by
  constructor
  · rintro ⟨⟨v, steps⟩, ht⟩
    obtain ⟨o, ho, -⟩ := translateBinary_eq_ok ht
    rcases binaryOp?_cases ho with ⟨rfl, -⟩ | ⟨rfl, -⟩ | ⟨rfl, -⟩ | ⟨rfl, -⟩ <;> rfl
  · intro hop
    rw [List.contains_iff_mem] at hop
    simp only [List.mem_cons, List.not_mem_nil, or_false] at hop
    rcases hop with rfl | rfl | rfl | rfl
    · exact exists_translateOperation .add l r "addtmp" n
    · exact exists_translateOperation .sub l r "subtmp" n
    · exact exists_translateOperation .mul l r "multmp" n
    · obtain ⟨⟨truth, first⟩, hfirst⟩ := exists_translateOperation .less l r "cmptmp" n
      obtain ⟨⟨v, last⟩, hlast⟩ :
          ∃ p, translateWiden truth "booltmp" (n + first.length) = .ok p := by
        cases truth <;> exact ⟨_, rfl⟩
      exact ⟨(v, first ++ last), bind_eq_ok_iff.mpr ⟨truth, first, last, hfirst, hlast, rfl⟩⟩

mutual

/-- An expression can be translated if and only if it uses what there is. -/
theorem exists_translateExpr_iff
    (hcallee : ∀ name, name ≠ "" → (callee? name).map Prod.snd = (T name).map (·.params.length))
    (hscope : ∀ x, (scope.lookup x).isSome = params.contains x) {e : Expr} (he : e.Named)
    (n : Nat) : (∃ p, translateExpr callee? scope e n = .ok p) ↔ e.usable T params = true := by
  cases e with
  | number d =>
    rw [translateExpr, Expr.usable]
    exact ⟨fun _ ↦ rfl, fun _ ↦ ⟨_, rfl⟩⟩
  | name x =>
    rw [translateExpr, Expr.usable, ← hscope]
    cases scope.lookup x with
    | none => exact ⟨nofun, nofun⟩
    | some v => exact ⟨fun _ ↦ rfl, fun _ ↦ ⟨_, rfl⟩⟩
  | binary op lhs rhs =>
    rw [Expr.Named] at he
    rw [Expr.usable, Bool.and_eq_true, Bool.and_eq_true]
    constructor
    · rintro ⟨⟨v, steps⟩, ht⟩
      obtain ⟨l, first, r, second, last, hl, hr, hop, -⟩ := translateExpr_binary_eq_ok_iff.mp ht
      exact ⟨⟨exists_translateBinary_iff.mp ⟨_, hop⟩,
        (exists_translateExpr_iff hcallee hscope he.1 n).mp ⟨_, hl⟩⟩,
        (exists_translateExpr_iff hcallee hscope he.2 _).mp ⟨_, hr⟩⟩
    · rintro ⟨⟨hop, hl⟩, hr⟩
      obtain ⟨⟨l, first⟩, hl⟩ := (exists_translateExpr_iff hcallee hscope he.1 n).mpr hl
      obtain ⟨⟨r, second⟩, hr⟩ :=
        (exists_translateExpr_iff hcallee hscope he.2 (n + first.length)).mpr hr
      obtain ⟨⟨v, last⟩, hop⟩ := exists_translateBinary_iff.mpr hop
      exact ⟨_, translateExpr_binary_eq_ok_iff.mpr
        ⟨l, first, r, second, last, hl, hr, hop, rfl⟩⟩
  | call name args =>
    rw [Expr.Named] at he
    rw [Expr.usable, Bool.and_eq_true]
    have hname := hcallee name he.1
    constructor
    · rintro ⟨⟨v, steps⟩, ht⟩
      obtain ⟨h, values, first, hh, hargs, -, -⟩ := translateExpr_call_eq_ok_iff.mp ht
      rw [hh] at hname
      obtain ⟨src, hsrc, hcount⟩ := Option.map_eq_some_iff.mp hname.symm
      refine ⟨?_, (exists_translateArgs_iff hcallee hscope he.2 n).mp ⟨_, hargs⟩⟩
      rw [hsrc]
      exact beq_iff_eq.mpr hcount
    · rintro ⟨hsrc, hargs⟩
      obtain ⟨⟨values, first⟩, hargs⟩ := (exists_translateArgs_iff hcallee hscope he.2 n).mpr hargs
      cases hT : T name with
      | none =>
        rw [hT] at hsrc
        cases hsrc
      | some src =>
        rw [hT] at hsrc hname
        obtain ⟨⟨h, count⟩, hh, hcount⟩ := Option.map_eq_some_iff.mp hname
        obtain rfl : count = args.length := hcount.trans (beq_iff_eq.mp hsrc)
        exact ⟨_, translateExpr_call_eq_ok_iff.mpr ⟨h, values, first, hh, hargs, rfl, rfl⟩⟩

theorem exists_translateArgs_iff
    (hcallee : ∀ name, name ≠ "" → (callee? name).map Prod.snd = (T name).map (·.params.length))
    (hscope : ∀ x, (scope.lookup x).isSome = params.contains x) {es : List Expr}
    (hes : Expr.AllNamed es) (n : Nat) :
    (∃ p, translateArgs callee? scope es n = .ok p) ↔ Expr.allUsable T params es = true := by
  cases es with
  | nil =>
    rw [translateArgs, Expr.allUsable]
    exact ⟨fun _ ↦ rfl, fun _ ↦ ⟨_, rfl⟩⟩
  | cons e es =>
    rw [Expr.AllNamed] at hes
    rw [Expr.allUsable, Bool.and_eq_true]
    constructor
    · rintro ⟨⟨values, steps⟩, ht⟩
      obtain ⟨v, first, vs, later, hv, hvs, -, -⟩ := translateArgs_cons_eq_ok_iff.mp ht
      exact ⟨(exists_translateExpr_iff hcallee hscope hes.1 n).mp ⟨_, hv⟩,
        (exists_translateArgs_iff hcallee hscope hes.2 _).mp ⟨_, hvs⟩⟩
    · rintro ⟨hv, hvs⟩
      obtain ⟨⟨v, first⟩, hv⟩ := (exists_translateExpr_iff hcallee hscope hes.1 n).mpr hv
      obtain ⟨⟨vs, later⟩, hvs⟩ :=
        (exists_translateArgs_iff hcallee hscope hes.2 (n + first.length)).mpr hvs
      exact ⟨_, translateArgs_cons_eq_ok_iff.mpr ⟨v, first, vs, later, hv, hvs, rfl, rfl⟩⟩

end

end Acceptance

theorem isSome_lookup_ofParams (params : List String) (x : String) :
    ((Scope.ofParams params).lookup x).isSome = params.contains x := by
  rw [Bool.eq_iff_iff, List.lookup_isSome_iff, List.contains_iff_mem]
  constructor
  · rintro ⟨p, hp, hx⟩
    rw [Scope.ofParams, List.mem_reverse, List.mem_map] at hp
    obtain ⟨⟨name, i⟩, hi, rfl⟩ := hp
    rw [eq_of_beq hx]
    exact (List.getElem?_eq_some_iff.mp (List.mk_mem_zipIdx_iff_getElem?.mp hi)).2 ▸
      List.getElem_mem _
  · intro hx
    obtain ⟨i, hi⟩ := List.mem_iff_getElem?.mp hx
    refine ⟨(x, .param i), ?_, beq_self_eq_true x⟩
    rw [Scope.ofParams, List.mem_reverse, List.mem_map]
    exact ⟨(x, i), List.mk_mem_zipIdx_iff_getElem?.mpr hi, rfl⟩

namespace Lowering

variable {l : Lowering} {T : Sources}

private theorem map_snd_callee? (hm : l.program.Holds T) (name : String) :
    (l.program.callee? name).map Prod.snd = (T name).map (·.params.length) := by
  rw [Module.callee?, Option.map_map]
  cases hT : T name with
  | none => rw [hm.lookup?_eq_none hT, Option.map_none, Option.map_none]
  | some src =>
    obtain ⟨h, f, hl, hf, htrans⟩ := hm.translates hT
    rw [hl, Option.map_some, Option.map_some, ← htrans.length_params]
    exact congrArg some (Module.paramCount_of_find? hf)

private theorem refusal?_eq_none_iff_of_holds (hm : l.program.Holds T) (proto : Prototype) :
    refusal? l.program proto = none ↔
      (match T proto.name with
        | some src => src.body?.isNone && src.params.length == proto.params.length
        | none => true) = true := by
  cases hT : T proto.name with
  | none =>
    rw [refusal?, hm.lookup?_eq_none hT]
    simp
  | some src =>
    obtain ⟨h, f, hl, hf, htrans⟩ := hm.translates hT
    rw [refusal?_eq_none_iff hl hf, htrans.length_params]
    simp only [Bool.and_eq_true, beq_iff_eq, Option.isNone_iff_eq_none]
    exact and_congr_left fun _ ↦ htrans.blocks_eq_nil_iff

/-- A definition succeeds if and only if the interpreter accepts it. -/
theorem isOk_define (hm : l.program.Holds T) {d : Definition} (hbody : d.body.Named) :
    (l.define d).1.isOk = T.accepts d := by
  rw [Bool.eq_iff_iff, Sources.accepts, Bool.and_eq_true, ← refusal?_eq_none_iff_of_holds hm]
  -- the expression may use the function itself, and so is translated after the declaration
  have hcallee : ∀ name, name ≠ "" →
      (calleeIn l.program d.proto (l.declare d.proto).1 name).map Prod.snd =
        (T.define d name).map (·.params.length) := by
    intro name _
    rw [calleeIn, Sources.define]
    by_cases hname : name = d.proto.name
    · rw [if_pos hname, hname, Sources.set_self]
      rfl
    · rw [if_neg hname, Sources.set_of_ne hname]
      exact map_snd_callee? hm name
  rw [← exists_translateExpr_iff hcallee (isSome_lookup_ofParams d.proto.params) hbody 0,
    ← translated]
  rcases define_cases hm.toSettled d with
    ⟨e, hr, heq⟩ | ⟨v, steps, hr, ht, heq⟩ | ⟨e, steps, hr, ht, heq⟩
  · simp [hr, heq, Except.isOk, Except.toBool]
  · simp [hr, ht, heq, Except.isOk, Except.toBool]
  · simp [ht, heq, Except.isOk, Except.toBool]

end Lowering

/-! ## Telling everything

With unlimited room nothing that is told fails, and what is told can be said exactly. -/

namespace Console

/-- The notes that go to the error output as they are. -/
def plain (c : Console) : List String := c.notes.toList.filterMap Note.plain?

end Console

namespace Session

/-- The second session is the first one after it has written `text` and shown `printed`, and there
is still room for everything. -/
structure Told (s s' : Session) (text : String) (printed : List String) : Prop where
  lowering : s'.lowering = s.lowering
  evaluates : s'.evaluates = s.evaluates
  room : s'.console.out.room = none
  written : s'.console.out.written = s.console.out.written ++ text.toUTF8
  plain : s'.console.plain = s.console.plain ++ printed

theorem Told.trans {s s' s'' : Session} {text text' : String} {printed printed' : List String}
    (h : Told s s' text printed) (h' : Told s' s'' text' printed') :
    Told s s'' (text ++ text') (printed ++ printed') where
  lowering := h'.lowering.trans h.lowering
  evaluates := h'.evaluates.trans h.evaluates
  room := h'.room
  written := by
    rw [h'.written, h.written, ByteArray.append_assoc]
    exact congrArg _ String.toByteArray_append.symm
  plain := by rw [h'.plain, h.plain, List.append_assoc]

/-- The action writes `text`, shows `printed` and succeeds, if there is room for everything. -/
def Tells (x : Action Unit) (text : String) (printed : List String) : Prop :=
  ∀ s, s.console.out.room = none → ∃ s', x.run s = .ok () s' ∧ Told s s' text printed

variable {x : Action Unit} {f : Unit → Action Unit} {text text' : String}
  {printed printed' : List String}

theorem Tells.bind (hx : Tells x text printed) (hf : Tells (f ()) text' printed') :
    Tells (x >>= f) (text ++ text') (printed ++ printed') := by
  intro s hs
  obtain ⟨s', hrun, htold⟩ := hx s hs
  obtain ⟨s'', hrun', htold'⟩ := hf s' htold.room
  exact ⟨s'', (run_bind_of_run_ok hrun).trans hrun', htold.trans htold'⟩

theorem told_noted {s : Session} (hs : s.console.out.room = none) (notes : List Note) :
    Told s (s.noted notes) "" (notes.filterMap Note.plain?) where
  lowering := rfl
  evaluates := rfl
  room := hs
  written := ByteArray.append_empty.symm
  plain := by simp [noted, Console.plain]

theorem told_logged {s : Session} (hs : s.console.out.room = none) {lines : List Note}
    (hlines : ∀ n ∈ lines, n.plain? = none) : Told s (s.noted lines) "" [] := by
  have htold := told_noted hs lines
  rwa [List.filterMap_eq_nil_iff.mpr hlines] at htold

theorem Logs.tells (hx : Logs x ()) : Tells x "" [] := by
  intro s hs
  obtain ⟨lines, hlines, hrun⟩ := hx s
  exact ⟨_, hrun, told_logged hs hlines⟩

theorem tells_write (text : String) : Tells (write text) text [] := by
  intro s hs
  refine ⟨{ s with console.out.written := s.console.out.written ++ text.toUTF8 }, ?_, rfl, rfl, hs,
    rfl, (List.append_nil _).symm⟩
  rw [write]
  simp only [EStateM.run_bind, EStateM.run_get, EStateM.run_set, Sink.write, hs]
  rfl

theorem tells_report (e : Error) : Tells (report e) ("Error: " ++ e.message ++ "\n") [] := by
  have hlog : Tells (log .debug "statement rejected" [("error", e.message)]) "" [] :=
    (logs_log _ _ _).tells
  have hboth := hlog.bind (f := fun _ ↦ write _) (tells_write ("Error: " ++ e.message ++ "\n"))
  rwa [String.empty_append] at hboth

private theorem tells_relay (texts : Array String) : Tells (relay texts) "" texts.toList := by
  obtain ⟨texts⟩ := texts
  rw [relay, Array.forM_eq_forM, List.forM_toArray]
  induction texts with
  | nil => exact (logs_pure ()).tells
  | cons text texts ih =>
    have hnote : Tells (note (.text text)) "" [text] :=
      fun s hs ↦ ⟨s.noted [.text text], rfl, told_noted hs [.text text]⟩
    exact hnote.bind (f := fun _ ↦ texts.forM fun text ↦ note (.text text)) ih

theorem run_present (heading : String) {listing : String} {h : FunctionId} {s : Session}
    (hs : s.console.out.room = none)
    (hlisting : s.lowering.program.functionText? h = some listing) :
    ∃ s', (present heading h).run s = .ok () s' ∧ Told s s' (heading ++ "\n" ++ listing) [] := by
  obtain ⟨s', hrun, htold⟩ := tells_write (heading ++ "\n") s hs
  obtain ⟨s'', hrun', htold'⟩ := tells_write listing s' htold.room
  have hboth : Told s s'' (heading ++ "\n" ++ listing) [] := htold.trans htold'
  have hlisting' : s'.lowering.program.functionText? h = some listing := by
    rw [htold.lowering, hlisting]
  refine ⟨s'', ?_, hboth⟩
  rw [present, run_bind_of_run_ok hrun, EStateM.run_bind, EStateM.run_get]
  simp only [hlisting', printed, pure_bind, hrun']

/-! ## Answers -/

/-- How an evaluation ends: with a value or a failure, and with what has been printed. -/
abbrev Outcome := EStateM.Result EvalError (Array String) Double

/-- What a session writes for an outcome. -/
def answerText : Outcome → String
  | .ok value _ => "Evaluated to " ++ value.display ++ "\n"
  | .error e _ => "Error: " ++ (Error.evaluation e).message ++ "\n"

def printedTexts : Outcome → List String
  | .ok _ texts => texts.toList
  | .error _ texts => texts.toList

theorem run_evaluate {h : FunctionId} {s : Session} (hs : s.console.out.room = none) :
    ∃ s', (evaluate h).run s = .ok () s' ∧
      Told s s' (answerText ((s.lowering.program.run h []).run #[]))
        (printedTexts ((s.lowering.program.run h []).run #[])) := by
  rw [evaluate, EStateM.run_bind, EStateM.run_get]
  simp only
  cases (s.lowering.program.run h []).run #[] with
  | ok value texts =>
    have htells := (tells_relay texts).bind (f := fun _ ↦ write _)
      (tells_write ("Evaluated to " ++ value.display ++ "\n"))
    rw [String.empty_append, List.append_nil] at htells
    exact htells s hs
  | error e texts =>
    have htells := (tells_relay texts).bind (f := fun _ ↦ report _)
      (tells_report (.evaluation e))
    rw [String.empty_append, List.append_nil] at htells
    exact htells s hs

/-- The session lowers a top-level expression, comes to `outcome` when it runs it, and writes its
text and the answer, showing what has been printed. -/
def Answers (s : Session) (e : Expr) (outcome : Outcome) : Prop :=
  ∃ h l listing s', s.lowering.define (.ofExpr e) = (.ok h, l) ∧
    (l.program.run h []).run #[] = outcome ∧
    l.program.functionText? h = some listing ∧
    (perform (.expression e)).run s = .ok () s' ∧
    s'.console.out.written = s.console.out.written ++
      ("Read top-level expression:" ++ "\n" ++ listing ++ answerText outcome).toUTF8 ∧
    s'.console.plain = s.console.plain ++ printedTexts outcome

/-! ## Going through the same sources -/

/-- The session can write everything, runs expressions, and holds the sources of an interpreter
between two statements. -/
structure Represents (s : Session) (T : Sources) : Prop where
  holds : s.lowering.program.Holds T
  anonymous : T "" = none
  room : s.console.out.room = none
  evaluates : s.evaluates = true

variable {s : Session} {T : Sources}

private theorem Represents.of_told {s' : Session} (hs : s.Represents T)
    (h : Told s s' text printed) :
    s'.Represents T :=
  ⟨by rw [h.lowering]; exact hs.holds, hs.anonymous, h.room, h.evaluates.trans hs.evaluates⟩

private theorem Represents.lowered (hs : s.Represents T) {T' : Sources} {l : Lowering}
    (hl : l.program.Holds T') (hT' : T' "" = none) (lines : List Note) :
    Represents { s.noted lines with lowering := l } T' :=
  ⟨hl, hT', hs.room, hs.evaluates⟩

private theorem Represents.actDefinition (hs : s.Represents T) {d : Definition} (hd : d.Named) :
    (s.lowering.define d).1.isOk = T.accepts d ∧
      ∃ s', (performDefinition d).run s = .ok () s' ∧
        s'.Represents (T.after (.statement (.definition d))) := by
  have haccepts := Lowering.isOk_define hs.holds hd.body
  obtain ⟨lines, -, hrun⟩ := run_performDefinition d s
  rw [Sources.after]
  cases hdefine : s.lowering.define d with
  | mk r l =>
    rw [hdefine] at hrun haccepts
    cases r with
    | ok h =>
      have hl := Lowering.holds_define hs.holds hd.body hdefine
      have hs' := hs.lowered hl ((Sources.set_of_ne hd.proto.symm).trans hs.anonymous) lines
      obtain ⟨listing, hlisting⟩ := hl.wellFormed.exists_functionText? h
      obtain ⟨s', hpresent, htold⟩ := run_present _ hs'.room hlisting
      rw [if_pos (show T.accepts d = true from haccepts.symm)]
      exact ⟨haccepts, s', hrun.trans hpresent, hs'.of_told htold⟩
    | error e =>
      have hs' := hs.lowered (Lowering.holds_of_define_error hs.holds hdefine) hs.anonymous lines
      obtain ⟨s', hreport, htold⟩ := tells_report (.lowering e) _ hs'.room
      rw [if_neg (Bool.eq_false_iff.mp (show T.accepts d = false from haccepts.symm))]
      exact ⟨haccepts, s', hrun.trans hreport, hs'.of_told htold⟩

private theorem Represents.actDeclaration (hs : s.Represents T) {p : Prototype} (hp : p.Named) :
    ∃ s', (performDeclaration p).run s = .ok () s' ∧ s'.Represents (T.declare p) := by
  obtain ⟨lines, -, hrun⟩ := run_performDeclaration p s
  have hl := Lowering.holds_declare hs.holds p
  have hT' : T.declare p "" = none := by
    rw [Sources.declare]
    split
    · exact hs.anonymous
    · exact (Sources.set_of_ne hp.symm).trans hs.anonymous
  have hs' := hs.lowered hl hT' lines
  obtain ⟨listing, hlisting⟩ := hl.wellFormed.exists_functionText? (s.lowering.declare p).1
  obtain ⟨s', hpresent, htold⟩ := run_present _ hs'.room hlisting
  exact ⟨s', hrun.trans hpresent, hs'.of_told htold⟩

theorem lookup?_empty_of_define {l l' : Lowering} (hm : l.program.Holds T) {e : Expr}
    {h : FunctionId} (hd : l.define (.ofExpr e) = (.ok h, l')) :
    l'.program.lookup? "" = some h := by
  obtain ⟨-, f, v, steps, hc⟩ := Lowering.exists_completes hm.toSettled hd
  exact (hc.lookup? "").trans (if_pos rfl)

/-- The function of a top-level expression runs as the interpreter evaluates the expression. -/
theorem run_eq_evaluate {l l' : Lowering} (hm : l.program.Holds T) {e : Expr} (he : e.Named)
    {h : FunctionId} (hd : l.define (.ofExpr e) = (.ok h, l')) :
    l'.program.run h [] = T.evaluate e := by
  have hm' := Lowering.holds_define hm he hd
  have hsrc : T.define (.ofExpr e) "" = some ⟨[], some e⟩ := Sources.set_self
  obtain ⟨h', f, hl', hf, htrans⟩ := hm'.translates hsrc
  obtain rfl := Option.some.inj ((lookup?_empty_of_define hm hd).symm.trans hl')
  refine Module.call_eq_evalExpr (fun name h' k hname hc ↦ ?_) hf htrans rfl rfl
  exact Module.call_eq_call (hm'.knows fun name hname ↦ Sources.set_of_ne hname) maxDepth hname
    (Module.callee?_eq_some_iff.mp hc).1

private theorem Represents.run_performExpression_ok (hs : s.Represents T) {e : Expr} (he : e.Named)
    {h : FunctionId} {l : Lowering} (hdefine : s.lowering.define (.ofExpr e) = (.ok h, l)) :
    ∃ listing s', l.program.functionText? h = some listing ∧
      (performExpression e).run s =
        .ok () { s' with lowering.program := s'.lowering.program.erase h } ∧
      Told { s with lowering := l } s'
        ("Read top-level expression:" ++ "\n" ++ listing ++ answerText ((T.evaluate e).run #[]))
        (printedTexts ((T.evaluate e).run #[])) := by
  have hl := Lowering.holds_define hs.holds he hdefine
  obtain ⟨lines, hlines, hrun⟩ := run_performExpression e s
  rw [hdefine] at hrun
  obtain ⟨listing, hlisting⟩ := hl.wellFormed.exists_functionText? h
  have hlogged : Told { s with lowering := l } { s.noted lines with lowering := l } "" [] :=
    told_logged (s := { s with lowering := l }) hs.room hlines
  obtain ⟨s₁, hpresent, htold₁⟩ := run_present "Read top-level expression:" hlogged.room hlisting
  obtain ⟨s₂, hevaluate, htold₂⟩ := run_evaluate (h := h) htold₁.room
  have heval : s₁.evaluates = true := htold₁.evaluates.trans hs.evaluates
  rw [htold₁.lowering, run_eq_evaluate hs.holds he hdefine] at htold₂
  have htold := hlogged.trans (htold₁.trans htold₂)
  rw [String.empty_append, List.nil_append, List.nil_append] at htold
  refine ⟨listing, s₂, hlisting, ?_, htold⟩
  -- the evaluation has been told without an error, and what is ensured afterwards is erasing
  rw [hrun]
  simp only
  rw [EStateM.run_bind, hpresent]
  simp only [EStateM.run_bind, EStateM.run_get, heval, if_true]
  show ensuring (evaluate h) (erase h) s₁ = _
  rw [ensuring.eq_def]
  simp only [hevaluate]
  rfl

/-- A top-level expression is answered with what the interpreter comes to, and leaves no trace in
what has been lowered. -/
private theorem Represents.actExpression (hs : s.Represents T) {e : Expr} (he : e.Named) :
    (s.lowering.define (.ofExpr e)).1.isOk = T.accepts (.ofExpr e) ∧
      (T.accepts (.ofExpr e) = true → s.Answers e ((T.evaluate e).run #[])) ∧
      ∃ s', (performExpression e).run s = .ok () s' ∧ s'.Represents T := by
  have haccepts := Lowering.isOk_define (d := .ofExpr e) hs.holds he
  refine ⟨haccepts, ?_⟩
  rw [← haccepts]
  cases hdefine : s.lowering.define (.ofExpr e) with
  | mk r l =>
    cases r with
    | error err =>
      obtain ⟨lines, -, hrun⟩ := run_performExpression e s
      rw [hdefine] at hrun
      have hs' := hs.lowered (Lowering.holds_of_define_error hs.holds hdefine) hs.anonymous lines
      obtain ⟨s', hreport, htold⟩ := tells_report (.lowering err) _ hs'.room
      exact ⟨nofun, s', hrun.trans hreport, hs'.of_told htold⟩
    | ok h =>
      obtain ⟨listing, s', hlisting, hrun, htold⟩ := hs.run_performExpression_ok he hdefine
      refine ⟨fun _ ↦ ⟨h, l, listing, _, hdefine, ?_, hlisting, hrun, htold.written, htold.plain⟩,
        _, hrun, ?_, hs.anonymous, htold.room, htold.evaluates.trans hs.evaluates⟩
      · rw [run_eq_evaluate hs.holds he hdefine]
      · have hl := Lowering.holds_define hs.holds he hdefine
        have herase := hl.erase (lookup?_empty_of_define hs.holds hdefine)
        -- no name is given to it for longer than the statement lasts
        have hT : (T.define (.ofExpr e)).set "" none = T :=
          (Sources.set_set none).trans (Sources.set_eq_self hs.anonymous)
        rw [hT] at herase
        show (s'.lowering.program.erase h).Holds T
        rw [htold.lowering]
        exact herase

/-! ## Whole sessions -/

/-- The session accepts what the interpreter accepts, and answers each accepted top-level expression
with what the interpreter comes to. -/
def Agrees (s : Session) (T : Sources) : List Item → Prop
  | [] => True
  | i :: items =>
    (match i with
      | .statement (.definition d) => (s.lowering.define d).1.isOk = T.accepts d
      | .statement (.declaration _) => True
      | .statement (.expression e) =>
        (s.lowering.define (.ofExpr e)).1.isOk = T.accepts (.ofExpr e) ∧
          (T.accepts (.ofExpr e) = true → s.Answers e ((T.evaluate e).run #[]))
      | .misread _ => True) ∧
    Agrees (after (actItem i) s) (T.after i) items

private theorem Represents.actItem (hs : s.Represents T) {i : Item} (hi : i.Named) :
    ∃ s', (Session.actItem i).run s = .ok () s' ∧ s'.Represents (T.after i) := by
  rcases i with (d | p | e) | what
  · exact (hs.actDefinition hi).2
  · exact hs.actDeclaration hi
  · exact (hs.actExpression hi).2.2
  · obtain ⟨s', hreport, htold⟩ := tells_report (.reading (.expected what)) s hs.room
    exact ⟨s', hreport, hs.of_told htold⟩

/-- The items of a script, acted one after the other. -/
def acted (s : Session) (items : List Item) : Session :=
  items.foldl (fun s i ↦ after (Session.actItem i) s) s

theorem Represents.agrees {items : List Item} (hs : s.Represents T)
    (hitems : ∀ i ∈ items, i.Named) : s.Agrees T items := by
  induction items generalizing s T with
  | nil => trivial
  | cons i items ih =>
    have hi := hitems i List.mem_cons_self
    refine ⟨?_, ?_⟩
    · rcases i with (d | p | e) | what
      · exact (hs.actDefinition hi).1
      · trivial
      · exact ⟨(hs.actExpression hi).1, (hs.actExpression hi).2.1⟩
      · trivial
    · obtain ⟨s', hrun, hs'⟩ := hs.actItem hi
      rw [after_of_run_ok hrun]
      exact ih hs' fun j hj ↦ hitems j (List.mem_cons_of_mem _ hj)

/-- A script is acted item by item, and its fault changes nothing any more. -/
theorem Represents.act {items : List Item} (hs : s.Represents T) (fault : Option LexError)
    (hitems : ∀ i ∈ items, i.Named) :
    after (Session.act ⟨items, fault⟩) s = s.acted items ∧
      ∃ T', (s.acted items).Represents T' := by
  induction items generalizing s T with
  | nil =>
    refine ⟨?_, T, hs⟩
    cases fault <;> rfl
  | cons i items ih =>
    obtain ⟨s', hrun, hs'⟩ := hs.actItem (hitems i List.mem_cons_self)
    have hlater := ih hs' fun j hj ↦ hitems j (List.mem_cons_of_mem _ hj)
    have hacted : s.acted (i :: items) = s'.acted items := by
      rw [acted, List.foldl_cons, after_of_run_ok hrun]
      rfl
    rw [show Session.act ⟨i :: items, fault⟩ = _ from act_cons i ⟨items, fault⟩,
      after_bind_of_run_ok hrun, hacted]
    exact hlater

/-- The session after lines, of which each is handled although one before it may have failed. -/
def handled (s : Session) (lines : List String) : Session :=
  lines.foldl (fun s line ↦ after (handle line) s) s

private theorem Represents.handled_eq {lines : List String} (hs : s.Represents T) :
    s.handled lines = s.acted (Script.itemsOf lines) := by
  induction lines generalizing s T with
  | nil => rfl
  | cons line lines ih =>
    obtain ⟨hact, T', hT'⟩ := hs.act (Script.ofText line).fault (Script.named_ofText line)
    rw [handled, List.foldl_cons, ← handled, handle_eq,
      show after (Session.act (Script.ofText line)) s = _ from hact, ih hT', Script.itemsOf,
      Script.itemsOf, List.flatMap_cons]
    exact List.foldl_append.symm

/-- **A session agrees with the interpreter.** Whatever lines a session is given that can write
everything and runs expressions, it goes through their items one after the other; it accepts the
definitions and lowers the top-level expressions that the interpreter of sources accepts; and it
answers each top-level expression with the value or the failure that the interpreter comes to,
having shown what the interpreter prints. -/
theorem handled_agrees (name : String) (lines : List String) :
    (start name true).Agrees .empty (Script.itemsOf lines) ∧
      (start name true).handled lines = (start name true).acted (Script.itemsOf lines) := by
  have hstart : (start name true).Represents .empty := ⟨Module.holds_empty name, rfl, rfl, rfl⟩
  refine ⟨hstart.agrees fun i hi ↦ ?_, hstart.handled_eq⟩
  obtain ⟨line, -, hi⟩ := List.mem_flatMap.mp hi
  exact Script.named_ofText line i hi

end Session

end FloatLang
