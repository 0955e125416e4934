import FloatLang.Proofs.Cutting
import FloatLang.Proofs.WellFormed

/-!
# The tree of the calls of a function

Which calls a function makes, and in which order, stands in its code: there are no branches, and no
value decides which function is called. The calls below a call form a tree, in general an infinite
one, which is cut where no more frames may be entered. A run walks through the tree depth-first and
from left to right, and it fails at the first point that has something wrong with it: no frame may
be entered there, or it is a function without a body that the machine does not have.

So whether a run has a value, and else which error it ends with, is decided by the tree alone
(`ends_call`). The other errors do not occur in a well-formed module, since its operands exist, its
calls are of live functions with the right number of arguments, and its bodies end in a return.
-/

namespace FloatLang

open Ssa

namespace Ssa

/-! ## Calls -/

def Operation.callee? : Operation → Option FunctionId
  | .call h _ => some h
  | _ => none

def callees (is : List Instruction) : List FunctionId := is.filterMap fun i ↦ i.operation.callee?

/-- Whether the machine has a function of that name and with so many parameters. -/
def Builtin.resolves (name : String) (count : Nat) : Bool :=
  (resolve? name (List.replicate count .zero)).isSome

namespace Module

def callees (m : Module) (h : FunctionId) : List FunctionId :=
  match m.find? h with
  | none => []
  | some f =>
    match f.blocks with
    | [] => []
    | entry :: _ => Ssa.callees entry.instructions

/-- A chain of calls of that length leads from one function to another. -/
inductive CallChain (m : Module) : Nat → FunctionId → FunctionId → Prop
  | nil (h : FunctionId) : CallChain m 0 h h
  | cons {n : Nat} {h g h' : FunctionId} (hcall : g ∈ m.callees h) (hchain : CallChain m n g h') :
    CallChain m (n + 1) h h'

/-- No chain of calls from the function is longer than calls may nest. -/
def Shallow (m : Module) (h : FunctionId) : Prop := ∀ n h', m.CallChain n h h' → n ≤ maxDepth

/-- Every function without a body that calls lead to is one that the machine has. -/
def Resolved (m : Module) (h : FunctionId) : Prop :=
  ∀ n h' f, m.CallChain n h h' → m.find? h' = some f → f.blocks = [] →
    Builtin.resolves f.name f.params.length = true

/-- The points of the tree of calls below a function, depth-first and from left to right, each with
the number of frames that may be entered there. The tree ends where there is none. -/
def points (m : Module) : (frames : Nat) → FunctionId → List (Nat × FunctionId)
  | 0, h => [(0, h)]
  | frames + 1, h => (frames + 1, h) :: (m.callees h).flatMap (m.points frames)

/-- What is wrong with a point. -/
def offence? (m : Module) : Nat × FunctionId → Option EvalError
  | (0, _) => some .tooDeep
  | (_ + 1, h) =>
    match m.find? h with
    | none => none
    | some f =>
      if f.hasBody || Builtin.resolves f.name f.params.length then none
      else some (.unresolved f.name)

/-- What is wrong with the first point that has something wrong with it. -/
def firstOffence? (m : Module) (frames : Nat) (h : FunctionId) : Option EvalError :=
  (m.points frames h).findSome? m.offence?

end Module

/-! ## Points and chains -/

namespace Module

variable {m : Module} {h h' : FunctionId} {n : Nat}

theorem mem_points_iff {frames : Nat} :
    (n, h') ∈ m.points frames h ↔ ∃ k, k + n = frames ∧ m.CallChain k h h' := by
  induction frames generalizing h with
  | zero =>
    rw [points, List.mem_singleton, Prod.mk.injEq]
    constructor
    · rintro ⟨rfl, rfl⟩
      exact ⟨0, rfl, .nil h'⟩
    · rintro ⟨k, hk, hchain⟩
      obtain ⟨rfl, rfl⟩ := Nat.add_eq_zero_iff.mp hk
      cases hchain
      exact ⟨rfl, rfl⟩
  | succ frames ih =>
    rw [points, List.mem_cons, Prod.mk.injEq, List.mem_flatMap]
    constructor
    · rintro (⟨rfl, rfl⟩ | ⟨g, hg, hmem⟩)
      · exact ⟨0, Nat.zero_add _, .nil h'⟩
      · obtain ⟨k, hk, hchain⟩ := ih.mp hmem
        exact ⟨k + 1, by omega, .cons hg hchain⟩
    · rintro ⟨k, hk, hchain⟩
      cases hchain with
      | nil => exact .inl ⟨by omega, rfl⟩
      | @cons k _ g _ hg hchain => exact .inr ⟨g, hg, ih.mpr ⟨k, by omega, hchain⟩⟩

private theorem CallChain.exists_of_le {k : Nat} (hchain : m.CallChain n h h') (hk : k ≤ n) :
    ∃ g, m.CallChain k h g := by
  induction hchain generalizing k with
  | nil h =>
    obtain rfl := Nat.le_zero.mp hk
    exact ⟨h, .nil h⟩
  | @cons n h g h' hcall hchain ih =>
    cases k with
    | zero => exact ⟨h, .nil h⟩
    | succ k =>
      obtain ⟨g', hg'⟩ := ih (Nat.le_of_succ_le_succ hk)
      exact ⟨g', .cons hcall hg'⟩

theorem offence?_eq_none_iff :
    m.offence? (n, h) = none ↔
      n ≠ 0 ∧ ∀ f, m.find? h = some f → f.blocks = [] →
        Builtin.resolves f.name f.params.length = true := by
  cases n with
  | zero => simp [offence?]
  | succ n =>
    rw [offence?]
    cases hf : m.find? h with
    | none => simp
    | some f => cases hblocks : f.blocks <;> simp [Function.hasBody, hblocks]

/-- Nothing is wrong with any point exactly when chains are short enough and lead to functions that
there are. -/
theorem firstOffence?_eq_none_iff :
    m.firstOffence? (maxDepth + 1) h = none ↔ m.Shallow h ∧ m.Resolved h := by
  rw [firstOffence?, List.findSome?_eq_none_iff]
  constructor
  · intro hnone
    have hshallow : m.Shallow h := by
      intro n h' hchain
      by_contra hn
      -- a chain that is too long begins with one that leads just too deep
      obtain ⟨g, hg⟩ := hchain.exists_of_le (k := maxDepth + 1) (Nat.lt_of_not_le hn)
      have hmem : (0, g) ∈ m.points (maxDepth + 1) h := mem_points_iff.mpr ⟨_, rfl, hg⟩
      exact (offence?_eq_none_iff.mp (hnone _ hmem)).1 rfl
    refine ⟨hshallow, fun n h' f hchain hf hblocks ↦ ?_⟩
    have hn := hshallow n h' hchain
    have hmem : (maxDepth + 1 - n, h') ∈ m.points (maxDepth + 1) h :=
      mem_points_iff.mpr ⟨n, by omega, hchain⟩
    exact (offence?_eq_none_iff.mp (hnone _ hmem)).2 f hf hblocks
  · rintro ⟨hshallow, hresolved⟩ ⟨n, h'⟩ hmem
    obtain ⟨k, hk, hchain⟩ := mem_points_iff.mp hmem
    have hle := hshallow k h' hchain
    exact offence?_eq_none_iff.mpr ⟨by omega, fun f ↦ hresolved k h' f hchain⟩

theorem firstOffence?_eq_some {frames : Nat} {e : EvalError}
    (he : m.firstOffence? frames h = some e) : e = .tooDeep ∨ ∃ name, e = .unresolved name := by
  obtain ⟨⟨n, h'⟩, -, he⟩ := List.exists_of_findSome?_eq_some he
  cases n with
  | zero => exact .inl (Option.some.inj he).symm
  | succ n =>
    rw [offence?] at he
    split at he
    · cases he
    · split at he
      · cases he
      · exact .inr ⟨_, (Option.some.inj he).symm⟩

private theorem firstOffence?_succ (frames : Nat) (h : FunctionId) :
    m.firstOffence? (frames + 1) h =
      (m.offence? (frames + 1, h)).or
        ((m.callees h).findSome? (m.firstOffence? frames)) := by
  have hbelow (hs : List FunctionId) : (hs.flatMap (m.points frames)).findSome? m.offence? =
      hs.findSome? (m.firstOffence? frames) := by
    induction hs with
    | nil => rfl
    | cons g hs ih =>
      rw [List.flatMap_cons, List.findSome?_append, ih, List.findSome?_cons, firstOffence?]
      cases (m.points frames g).findSome? m.offence? <;> rfl
  rw [firstOffence?, points, List.findSome?_cons, hbelow]
  cases m.offence? (frames + 1, h) <;> rfl

end Module

/-! ## How runs end -/

/-- The run ends with that error, or, if there is none, with a value that has the property, whatever
has been printed before. -/
def Ends {α : Type} (x : Eval α) (p : α → Prop) (failure? : Option EvalError) : Prop :=
  ∀ printed,
    match x.run printed with
    | .ok a _ => failure? = none ∧ p a
    | .error e _ => failure? = some e

namespace Ends

variable {α β : Type} {x : Eval α} {p : α → Prop} {q : β → Prop}
  {failure? later? : Option EvalError}

theorem pure {a : α} (ha : p a) : Ends (Pure.pure a) p none := fun _ ↦ ⟨rfl, ha⟩

theorem throw (e : EvalError) : Ends (MonadExcept.throw e) p (some e) := fun _ ↦ rfl

/-- Of a run and what it goes on with, the first failure counts. -/
theorem bind {f : α → Eval β} (hx : Ends x p failure?) (hf : ∀ a, p a → Ends (f a) q later?) :
    Ends (x >>= f) q (failure?.or later?) := by
  intro printed
  have hx := hx printed
  rw [EStateM.run_bind]
  cases hrun : x.run printed with
  | ok a printed' =>
    rw [hrun] at hx
    obtain ⟨rfl, ha⟩ := hx
    exact hf a ha printed'
  | error e printed' =>
    rw [hrun] at hx
    obtain rfl := hx
    rfl

end Ends

/-! ## Operands -/

/-- The function has the parameter or the temporary that the operand is. -/
def Function.HasOperand (f : Function) : Value → Prop
  | .param j => j < f.params.length
  | .temp j => j < f.temps.length
  | _ => True

/-- Every index in the code of the function is one of a parameter or a temporary that it has. -/
structure Function.InRange (f : Function) : Prop where
  operands : ∀ b ∈ f.blocks, ∀ i ∈ b.instructions, ∀ v ∈ i.operation.operands, f.HasOperand v
  results : ∀ b ∈ f.blocks, ∀ i ∈ b.instructions, ∀ j, i.Sets j → j < f.temps.length

private theorem Block.WellFormed.hasOperand {m : Module} {f : Function} {b : Block}
    (hb : b.WellFormed m f)
    {i : Instruction} (hi : i ∈ b.instructions) {v : Value} (hv : v ∈ i.operation.operands) :
    f.HasOperand v := by
  cases v with
  | param j => exact hb.params i hi j hv
  | temp j =>
    obtain ⟨k, hk⟩ := List.mem_iff_getElem?.mp hi
    obtain ⟨k', -, i', hk', hj⟩ := hb.earlier k i hk j hv
    exact hb.lt_of_sets hk' hj
  | _ => trivial

theorem Function.WellFormed.inRange {m : Module} {f : Function} (hf : f.WellFormed m) :
    f.InRange := by
  rcases hf with hblocks | ⟨b, hblocks, hb⟩
  · constructor <;> rw [hblocks] <;> exact nofun
  · constructor <;> rw [hblocks, List.forall_mem_singleton]
    · exact fun i hi v hv ↦ hb.hasOperand hi hv
    · intro i hi j hj
      obtain ⟨k, hk⟩ := List.mem_iff_getElem?.mp hi
      exact hb.lt_of_sets hk hj

/-- The frame has as many arguments and temporaries as the function. -/
structure Frame.Fits (frame : Frame) (f : Function) : Prop where
  args : frame.args.length = f.params.length
  temps : frame.temps.length = f.temps.length

namespace Frame

variable {frame : Frame} {f : Function}

theorem fits_enter {args : List Double} (hargs : f.params.length = args.length) :
    (enter f args).Fits f :=
  ⟨hargs.symm, List.length_replicate⟩

theorem Fits.store (h : frame.Fits f) (result : Option Nat) (d : Double) :
    (frame.store result d).Fits f := by
  cases result with
  | none => exact h
  | some t => exact ⟨h.args, List.length_set.trans h.temps⟩

private theorem Fits.ends_read (h : frame.Fits f) {v : Value} (hv : f.HasOperand v) :
    Ends (frame.read v) (fun _ ↦ True) none := by
  have hsome : ∃ d, frame.read? v = some d := by
    cases v with
    | const d => exact ⟨d, rfl⟩
    | bool b => exact ⟨_, rfl⟩
    | param j => exact ⟨_, List.getElem?_eq_getElem (by rw [h.args]; exact hv)⟩
    | temp j => exact ⟨_, List.getElem?_eq_getElem (by rw [h.temps]; exact hv)⟩
  obtain ⟨d, hd⟩ := hsome
  rw [read, hd]
  exact .pure trivial

private theorem Fits.ends_mapM_read (h : frame.Fits f) {vs : List Value}
    (hvs : ∀ v ∈ vs, f.HasOperand v) :
    Ends (vs.mapM frame.read) (fun ds ↦ ds.length = vs.length) none := by
  induction vs with
  | nil => exact .pure rfl
  | cons v vs ih =>
    obtain ⟨hv, hvs⟩ := List.forall_mem_cons.mp hvs
    rw [List.mapM_cons]
    exact (h.ends_read hv).bind fun d _ ↦ (ih hvs).bind fun ds hds ↦
      .pure (congrArg (· + 1) hds)

end Frame

/-! ## Running -/

private theorem callees_cons (i : Instruction) (is : List Instruction) :
    callees (i :: is) = i.operation.callee?.toList ++ callees is := by
  rw [callees, List.filterMap_cons]
  cases i.operation.callee? <;> rfl

/-- Instructions with a return at their end answer a value, or fail as the first of their calls that
fails does. -/
theorem ends_runInstructions {call : FunctionId → List Double → Eval Double}
    {failure? : FunctionId → Option EvalError} {f : Function} {front : List Instruction}
    {result : Option Nat} {v : Value} (hret : f.HasOperand v)
    (hothers : ∀ i ∈ front, ¬i.IsRet)
    (hoperands : ∀ i ∈ front, ∀ w ∈ i.operation.operands, f.HasOperand w)
    (hcalls : ∀ i ∈ front, ∀ h vs, i.operation = .call h vs → ∀ args : List Double,
      args.length = vs.length → Ends (call h args) (fun _ ↦ True) (failure? h))
    {frame : Frame} (hframe : frame.Fits f) :
    Ends (runInstructions call (front ++ [⟨result, .ret v⟩]) frame) (fun d? ↦ d?.isSome = true)
      ((callees front).findSome? failure?) := by
  induction front generalizing frame with
  | nil => exact (hframe.ends_read hret).bind fun d _ ↦ .pure rfl
  | cons i front ih =>
    obtain ⟨hi, hothers⟩ := List.forall_mem_cons.mp hothers
    obtain ⟨hoperand, hoperands⟩ := List.forall_mem_cons.mp hoperands
    obtain ⟨hcall, hcalls⟩ := List.forall_mem_cons.mp hcalls
    have hrest (d : Double) := ih hothers hoperands hcalls (hframe.store i.result d)
    obtain ⟨result', operation⟩ := i
    rw [List.cons_append, runInstructions, callees_cons]
    cases operation with
    | binary op l r =>
      have hl := hframe.ends_read (hoperand l List.mem_cons_self)
      have hr := hframe.ends_read (hoperand r (List.mem_cons_of_mem _ List.mem_cons_self))
      exact hl.bind fun _ _ ↦ hr.bind fun _ _ ↦ hrest _
    | widen w =>
      exact (hframe.ends_read (hoperand w List.mem_cons_self)).bind fun _ _ ↦ hrest _
    | call h vs =>
      rw [List.findSome?_append, Operation.callee?, Option.toList_some, List.findSome?_singleton]
      exact (hframe.ends_mapM_read hoperand).bind fun ds hds ↦
        (hcall h vs rfl ds hds).bind fun d _ ↦ hrest d
    | ret w => exact absurd ⟨w, rfl⟩ hi

/-- Whether the machine has a function does not depend on the arguments, only on their number. -/
private theorem Builtin.isSome_resolve? (name : String) (args : List Double) :
    (resolve? name args).isSome = resolves name args.length := by
  rcases args with _ | ⟨x, _ | ⟨y, _ | ⟨z, args⟩⟩⟩
  · rfl
  · rw [resolves, List.length_singleton, List.replicate_one, resolve?.eq_def, resolve?.eq_def]
    simp only
    split <;> simp only [Option.isSome_some, Option.isSome_none]
  · rw [resolves, List.length_cons, List.length_singleton, List.replicate_succ, List.replicate_one,
      resolve?.eq_def, resolve?.eq_def]
    simp only
    split <;> simp only [Option.isSome_some, Option.isSome_none]
  · rfl

/-- A body of a well-formed function fails as the first of its calls that fails does. -/
theorem Block.WellFormed.ends_runInstructions {m : Module} {f : Function} {b : Block}
    (hb : b.WellFormed m f) {call : FunctionId → List Double → Eval Double}
    {failure? : FunctionId → Option EvalError}
    (hcall : ∀ h g, m.find? h = some g → ∀ args : List Double, args.length = g.params.length →
      Ends (call h args) (fun _ ↦ True) (failure? h))
    {frame : Frame} (hframe : frame.Fits f) :
    Ends (runInstructions call b.instructions frame) (fun d? ↦ d?.isSome = true)
      ((callees b.instructions).findSome? failure?) := by
  obtain ⟨⟨result, operation⟩, hlast, ⟨v, hret⟩, -⟩ := hb.last
  simp only at hret
  subst hret
  have hsplit := List.dropLast_append_getLast? _ hlast
  have hmem {i : Instruction} (hi : i ∈ b.instructions.dropLast) : i ∈ b.instructions :=
    List.dropLast_subset _ hi
  have hcallees : callees b.instructions = callees b.instructions.dropLast := by
    rw [← hsplit, callees, List.filterMap_append, List.dropLast_concat, callees]
    exact List.append_nil _
  rw [hcallees, ← hsplit, List.dropLast_concat]
  refine Ssa.ends_runInstructions (hb.hasOperand (List.mem_of_getLast? hlast) List.mem_cons_self)
    hb.others (fun i hi w hw ↦ hb.hasOperand (hmem hi) hw) (fun i hi h vs hop args hargs ↦ ?_)
    hframe
  obtain ⟨g, hg, hparams, -⟩ := hb.calls i (hmem hi) h vs hop
  exact hcall h g hg args (hargs.trans hparams.symm)

private theorem Builtin.ends_perform (b : Builtin) : Ends b.perform (fun _ ↦ True) none := by
  intro printed
  obtain ⟨_ | text, value⟩ := b <;> exact ⟨rfl, trivial⟩

namespace Module

variable {m : Module}

/-- A call in a well-formed module ends as the first point below it that has something wrong with
it says. -/
theorem ends_call (hm : m.WellFormed) (frames : Nat) {h : FunctionId} {f : Function}
    (hf : m.find? h = some f) {args : List Double} (hargs : args.length = f.params.length) :
    Ends (m.call frames h args) (fun _ ↦ True) (m.firstOffence? frames h) := by
  induction frames generalizing h f args with
  | zero => exact .throw _
  | succ frames ih =>
    rw [firstOffence?_succ, call, hf]
    simp only
    rw [if_neg (not_not.mpr hargs.symm), offence?, hf, callees, hf]
    simp only
    rcases hm h f hf with hblocks | ⟨b, hblocks, hb⟩
    · have hresolves := Builtin.isSome_resolve? f.name args
      rw [hargs] at hresolves
      rw [hblocks, Function.hasBody, hblocks, ← hresolves]
      cases Builtin.resolve? f.name args with
      | none => exact .throw _
      | some b => exact b.ends_perform
    · rw [hblocks, Function.hasBody, hblocks]
      have hcall (h : FunctionId) (g : Function) (hg : m.find? h = some g) (args : List Double)
          (hargs : args.length = g.params.length) :
          Ends (m.call frames h args) (fun _ ↦ True) (m.firstOffence? frames h) := ih hg hargs
      have hbody := hb.ends_runInstructions hcall (Frame.fits_enter hargs.symm)
      rw [if_pos (by simp), Option.none_or, ← Option.or_none (o := List.findSome? _ _)]
      refine hbody.bind ?_
      rintro (_ | d) hd
      · cases hd
      · exact .pure trivial

end Module

private theorem Module.CallChain.exists_find? {m : Module} (hm : m.WellFormed) {n : Nat}
    {h h' : FunctionId} (hchain : m.CallChain n h h') (hlive : ∃ f, m.find? h = some f) :
    ∃ g, m.find? h' = some g := by
  induction hchain with
  | nil h => exact hlive
  | @cons n h g h' hcall hchain ih =>
    obtain ⟨f, hf⟩ := hlive
    refine ih ?_
    rw [callees, hf] at hcall
    rcases hm h f hf with hblocks | ⟨b, hblocks, hb⟩
    · simp [hblocks] at hcall
    · simp only [hblocks, Ssa.callees, List.mem_filterMap] at hcall
      obtain ⟨i, hi, hcallee⟩ := hcall
      cases hop : i.operation with
      | call h args =>
        rw [hop, Operation.callee?] at hcallee
        obtain rfl := Option.some.inj hcallee
        obtain ⟨g, hg, -⟩ := hb.calls i hi h args hop
        exact ⟨g, hg⟩
      | _ =>
        rw [hop] at hcallee
        cases hcallee

def failure? {α : Type} : EStateM.Result EvalError (Array String) α → Option EvalError
  | .ok _ _ => none
  | .error e _ => some e

namespace Ends

variable {α : Type} {x : Eval α} {p : α → Prop} {o : Option EvalError}

theorem failure?_eq (hx : Ends x p o) (printed : Array String) : failure? (x.run printed) = o := by
  have hx := hx printed
  cases hrun : x.run printed <;> rw [hrun] at hx
  · exact hx.1.symm
  · exact hx.symm

theorem exists_ok_iff (hx : Ends x p o) (printed : Array String) :
    (∃ a printed', x.run printed = .ok a printed') ↔ o = none := by
  have hfailure := hx.failure?_eq printed
  cases hrun : x.run printed with
  | ok a printed' =>
    rw [hrun] at hfailure
    exact iff_of_true ⟨a, printed', rfl⟩ hfailure.symm
  | error e printed' =>
    rw [hrun] at hfailure
    obtain rfl := hfailure
    exact iff_of_false nofun nofun

end Ends

end Ssa

/-! ## Sessions -/

namespace Session

/-- The modules that a session works on: the one that it holds, and that one with a top-level
expression lowered, which is then run. -/
def Works (s : Session) (m : Module) : Prop :=
  m = s.lowering.program ∨ ∃ e : Expr, e.Named ∧ m = (s.lowering.define (.ofExpr e)).2.program

theorem wellFormed_of_works {name : String} {evaluates : Bool} {texts : List (Option Nat × String)}
    {m : Module} (hm : ((start name evaluates).feed texts).Works m) : m.WellFormed := by
  have hstart : ∃ T, (start name evaluates).lowering.program.Holds T :=
    ⟨.empty, Module.holds_empty name⟩
  have hfeed := exists_holds_feed hstart texts
  rcases hm with rfl | ⟨e, he, rfl⟩
  · obtain ⟨T, hT⟩ := hfeed
    exact hT.wellFormed
  · obtain ⟨T, hT⟩ := exists_holds_define hfeed (d := .ofExpr e) he
    exact hT.wellFormed

private theorem lowering_feed_sine :
    ((start "m" true).feed [(none, "extern sin(x)"), (none, "def f(y) sin(y)")]).lowering =
      (((start "m" true).lowering.declare ⟨"sin", ["x"]⟩).2.define
        ⟨⟨"f", ["y"]⟩, .call "sin" [.name "y"]⟩).2 := by
  have hdeclaration : (Cursor.ofString "extern sin(x)").stream =
      ⟨[.externKeyword, .identifier "sin", .symbol '(', .identifier "x", .symbol ')'], none⟩ :=
    open Cursor in
    stream_of_call rfl <| stream_of_call rfl <| stream_of_call rfl <| stream_of_call rfl <|
      stream_of_call rfl <| stream_of_call_end rfl
  have hdefinition : (Cursor.ofString "def f(y) sin(y)").stream =
      ⟨[.defKeyword, .identifier "f", .symbol '(', .identifier "y", .symbol ')',
        .identifier "sin", .symbol '(', .identifier "y", .symbol ')'], none⟩ :=
    open Cursor in
    stream_of_call rfl <| stream_of_call rfl <| stream_of_call rfl <| stream_of_call rfl <|
      stream_of_call rfl <| stream_of_call rfl <| stream_of_call rfl <| stream_of_call rfl <|
      stream_of_call rfl <| stream_of_call_end rfl
  have hread : readStatement none [.externKeyword, .identifier "sin", .symbol '(',
      .identifier "x", .symbol ')'] = .read (.declaration ⟨"sin", ["x"]⟩) [] (by decide) := by
    simp [readStatement, readDeclaration, readPrototype, readNames, Reading.bind,
      Reading.stepOver, Reading.widen, Reading.close, TokenStream.blocking?]
  have hread' : readStatement none [.defKeyword, .identifier "f", .symbol '(', .identifier "y",
      .symbol ')', .identifier "sin", .symbol '(', .identifier "y", .symbol ')'] =
        .read (.definition ⟨⟨"f", ["y"]⟩, .call "sin" [.name "y"]⟩) [] (by decide) := by
    have hargument : readArguments none [.identifier "y", .symbol ')'] =
        .read [.name "y"] [] (by decide) := by
      rw [readArguments.eq_def, readExpr.eq_def, readPrimary.eq_def]
      simp [readOperators.eq_def none 0 (.name "y") [.symbol ')'], Reading.afterArgument,
        Reading.bind, Reading.stepOver, Reading.widen, Reading.close, TokenStream.blocking?,
        precedence?]
    have hbody : readExpr none [.identifier "sin", .symbol '(', .identifier "y", .symbol ')'] =
        .read (.call "sin" [.name "y"]) [] (by decide) := by
      rw [readExpr.eq_def, readPrimary.eq_def]
      simp [hargument, readOperators.eq_def none 0 _ [], Reading.bind, Reading.stepOver,
        Reading.widen, TokenStream.blocking?]
    simp [readStatement, readDefinition, readDeclaration, readPrototype, readNames, hbody,
      Reading.bind, Reading.stepOver, Reading.widen, Reading.close, TokenStream.blocking?]
  show ((feed _ [_]).feed [_]).lowering = _
  rw [lowering_feed_of_definition (Script.ofText_of_read (by decide) hdefinition hread'),
    lowering_feed_of_declaration (Script.ofText_of_read (by decide) hdeclaration hread)]

/-- **How runs end.** In every module that a session works on, and for every live function and as
many arguments as it has parameters, a run has a value exactly when no chain of calls from the
function is longer than calls may nest and all of them lead to functions that there are. Else it
ends with the error of the first point of the tree of calls, depth-first and from left to right,
that has something wrong with it: calls nest too deep there, or the machine does not have the
function. No other error occurs. It does not depend on the arguments, nor on what has been printed,
which of these happens. All the functions that calls lead to are live, and the operands and results
of their instructions exist. -/
theorem run_ends (name : String) (evaluates : Bool) (texts : List (Option Nat × String))
    (m : Module) (hm : ((start name evaluates).feed texts).Works m) (h : FunctionId)
    (hlive : (m.find? h).isSome = true) (args : List Double)
    (hargs : args.length = m.paramCount h) (printed : Array String) :
    ((∃ v printed', (m.run h args).run printed = .ok v printed') ↔ m.Shallow h ∧ m.Resolved h) ∧
      (∀ e printed', (m.run h args).run printed = .error e printed' →
        m.firstOffence? (maxDepth + 1) h = some e ∧
          (e = .tooDeep ∨ ∃ name, e = .unresolved name)) ∧
      (∀ (args' : List Double) printed', args'.length = m.paramCount h →
        failure? ((m.run h args').run printed') = failure? ((m.run h args).run printed)) ∧
      ∀ n h', m.CallChain n h h' → ∃ g, m.find? h' = some g ∧ g.InRange := by
  obtain ⟨f, hf⟩ := Option.isSome_iff_exists.mp hlive
  rw [Module.paramCount_of_find? hf] at hargs ⊢
  have hwell := wellFormed_of_works hm
  have hends {args : List Double} (hargs : args.length = f.params.length) :
      Ends (m.run h args) (fun _ ↦ True) (m.firstOffence? (maxDepth + 1) h) :=
    Module.ends_call hwell (maxDepth + 1) hf hargs
  refine ⟨?_, fun e printed' hrun ↦ ?_, fun args' printed' hargs' ↦ ?_, fun n h' hchain ↦ ?_⟩
  · rw [(hends hargs).exists_ok_iff, Module.firstOffence?_eq_none_iff]
  · have he := (hends hargs).failure?_eq printed
    rw [hrun] at he
    exact ⟨he.symm, Module.firstOffence?_eq_some he.symm⟩
  · rw [(hends hargs').failure?_eq, (hends hargs).failure?_eq]
  · obtain ⟨g, hg⟩ := hchain.exists_find? hwell ⟨f, hf⟩
    exact ⟨g, hg, (hwell h' g hg).inRange⟩

/-- A function that calls the machine's sine has a value. -/
theorem run_of_sine :
    let s := (start "m" true).feed [(none, "extern sin(x)"), (none, "def f(y) sin(y)")]
    let m := s.lowering.program
    m.callees ⟨1, 0⟩ = [⟨0, 0⟩] ∧
      m.find? ⟨0, 0⟩ = some ⟨"sin", ["x"], [], []⟩ ∧
      ∃ v printed', (m.run ⟨1, 0⟩ [.one]).run #[] = .ok v printed' := by
  intro s m
  have hm : m = (((start "m" true).lowering.declare ⟨"sin", ["x"]⟩).2.define
      ⟨⟨"f", ["y"]⟩, .call "sin" [.name "y"]⟩).2.program :=
    congrArg Lowering.program lowering_feed_sine
  have hcallees : m.callees ⟨1, 0⟩ = [⟨0, 0⟩] := by
    rw [hm]
    rfl
  have hsine : m.find? ⟨0, 0⟩ = some ⟨"sin", ["x"], [], []⟩ := by
    rw [hm]
    rfl
  have hlive : (m.find? ⟨1, 0⟩).isSome = true := by
    rw [hm]
    rfl
  have hbody : m.hasBody ⟨1, 0⟩ = true := by
    rw [hm]
    rfl
  have hends := run_ends "m" true _ m (.inl rfl) ⟨1, 0⟩ hlive [.one] (by rw [hm]; rfl) #[]
  have hchains : ∀ n h', m.CallChain n ⟨1, 0⟩ h' → n = 0 ∧ h' = ⟨1, 0⟩ ∨ n = 1 ∧ h' = ⟨0, 0⟩ := by
    intro n h' hchain
    cases hchain with
    | nil => exact .inl ⟨rfl, rfl⟩
    | cons hcall hchain =>
      rw [hcallees] at hcall
      obtain rfl := List.mem_singleton.mp hcall
      cases hchain with
      | nil => exact .inr ⟨rfl, rfl⟩
      | cons hcall =>
        rw [Module.callees, hsine] at hcall
        cases hcall
  refine ⟨hcallees, hsine, hends.1.mpr ⟨fun n h' hchain ↦ ?_, fun n h' f hchain hf hblocks ↦ ?_⟩⟩
  · obtain ⟨rfl, -⟩ | ⟨rfl, -⟩ := hchains n h' hchain <;> decide
  · obtain ⟨-, rfl⟩ | ⟨-, rfl⟩ := hchains n h' hchain
    · rw [Module.hasBody, hf] at hbody
      simp [Function.hasBody, hblocks] at hbody
    · obtain rfl := Option.some.inj (hsine.symm.trans hf)
      rfl

end Session

end FloatLang
