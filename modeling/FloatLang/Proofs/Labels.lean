import FloatLang.Proofs.LocalNames
import FloatLang.Proofs.ParamNames
import FloatLang.Proofs.Permanence

/-!
# Labels and local names

In the text of a function the labels of the blocks stand among the names of the parameters and
temporaries, as if they had been made different from them. They have not: a new name is compared
with parameters and temporaries only. The temporaries keep clear of the labels nevertheless, since
their names are made from a few bases, none of which is a label, and a function has at most one
block. The parameters do not: they are called as the source says, and the label of the one block can
be said as well.

`Kept` lists the three things that can happen to a function of a session, so that what they keep
holds of the functions of every run. `labels_apart_iff` is one use of it: the label of a block is
the name of something else exactly if a parameter of a function with a body is called `entry`.
-/

namespace FloatLang

open Ssa

/-! ## What is kept for the functions of a run -/

namespace Lowering

/-- Whatever a sentence with a prototype that satisfies `N` does to a function, it keeps the
property `P`. -/
structure Kept (N : Prototype → Prop) (P : Function → Prop) : Prop where
  /-- A function is declared. -/
  declared : ∀ p, N p → P ⟨p.name, freshParams p.params, [], []⟩
  /-- A definition fails, and its names for the parameters stay. -/
  renamed : ∀ {f p}, N p → P f → P (f.renamed p.params)
  /-- A definition gives a body to a declaration. -/
  completed : ∀ {l d h l' f v steps}, N d.proto → Completes l d h l' f v steps → P f →
    P (f.completed d.proto.params steps v)

namespace Kept

variable {N : Prototype → Prop} {P : Function → Prop} {l : Lowering}

theorem declare (hP : Kept N P) (hm : l.program.Settled) (hall : l.program.All P) {p : Prototype}
    (hp : N p) : (l.declare p).2.program.All P := by
  cases hl : l.program.lookup? p.name with
  | some h => rwa [declare_of_lookup? hl]
  | none =>
    rw [declare_of_lookup?_eq_none hl]
    exact hall.declare hm.toTidy (hP.declared p hp)

theorem remnant (hP : Kept N P) (hall : l.program.All P) {p : Prototype} (hp : N p) :
    (Lowering.remnant l.program p).All P := by
  rw [Lowering.remnant]
  split
  · exact hall.update _ fun f _ ↦ hP.renamed hp
  · exact hall

theorem define (hP : Kept N P) (hm : l.program.Settled) (hall : l.program.All P) {d : Definition}
    (hd : N d.proto) : (l.define d).2.program.All P := by
  cases hl : l.define d with
  | mk r l' =>
    cases r with
    | error e =>
      intro h f hf
      rw [(views_of_define_error hm hl).2] at hf
      exact hP.remnant hall hd h f hf
    | ok h =>
      obtain ⟨-, g, v, steps, hc⟩ := exists_completes hm hl
      intro h' f hf
      rw [hc.find?] at hf
      by_cases hh : h' = h
      · rw [if_pos hh, Option.some.injEq] at hf
        exact hf ▸ hP.completed hd hc (hP.declare hm hall hd h g hc.declared.2)
      · rw [if_neg hh] at hf
        exact hall h' f hf

end Kept

end Lowering

namespace Session

variable {s s' : Session} {N : Prototype → Prop} {P : Function → Prop}

theorem all_after_perform (hP : Lowering.Kept N P) (hs : s.lowering.program.Settled)
    (hall : s.lowering.program.All P) {statement : Statement} (hN : N statement.proto) :
    (after (perform statement) s).lowering.program.All P := by
  rcases lowering_after_perform hs statement with
    ⟨d, hproto, hafter⟩ | ⟨p, hproto, hafter⟩ | ⟨d, g, f, hproto, -, -, -, hafter⟩
  · rw [hafter]
    exact hP.define hs hall (hproto ▸ hN)
  · rw [hafter]
    exact hP.declare hs hall (hproto ▸ hN)
  · rw [hafter]
    exact (hP.define hs hall (hproto ▸ hN)).erase g

theorem all_after_actItem (hP : Lowering.Kept N P) (hs : s.lowering.program.Settled)
    (hall : s.lowering.program.All P) {i : Item} (hN : ∀ statement, i = .statement statement →
      N statement.proto) : (after (actItem i) s).lowering.program.All P := by
  cases i with
  | statement statement => exact all_after_perform hP hs hall (hN statement rfl)
  | misread what =>
    rwa [show after (actItem (.misread what)) s = after (report _) s from rfl, quiet_report]

/-- What is kept holds of every function of every session that a run can come to. -/
theorem Reachable.all (hs : s.Reachable) (hP : Lowering.Kept (fun _ ↦ True) P) :
    s.lowering.program.All P := by
  obtain ⟨name, evaluates, hleads⟩ := hs
  induction hleads with
  | refl => exact Module.all_empty name
  | @answer s' hleads i hi ih =>
    obtain ⟨T, hT⟩ := hleads.exists_holds ⟨.empty, Module.holds_empty name⟩
    exact all_after_actItem hP hT.toSettled ih fun _ _ ↦ trivial
  | aside _ hsame ih => rwa [hsame]

end Session

/-! ## The names of temporaries -/

/-- What the names of temporaries are made from. -/
def tempBases : List String := ["addtmp", "subtmp", "multmp", "cmptmp", "booltmp", "calltmp"]

namespace Translation

variable {α β : Type}

/-- The temporaries that the translation inserts are named after the bases. -/
def NamesTemps (x : Translation α) : Prop :=
  ∀ n a steps, x n = .ok (a, steps) → ∀ s ∈ steps, s.base ∈ tempBases

theorem NamesTemps.pure (a : α) : NamesTemps (Pure.pure a) := by
  intro n b steps hx
  cases hx
  exact nofun

theorem NamesTemps.fail (e : LoweringError) : NamesTemps (fail e : Translation α) := nofun

theorem NamesTemps.step (op : Operation) {base : String} (hbase : base ∈ tempBases) :
    NamesTemps (step op base) := by
  intro n v steps hx s hs
  cases hx
  rwa [List.mem_singleton.mp hs]

theorem NamesTemps.bind {x : Translation α} {f : α → Translation β} (hx : NamesTemps x)
    (hf : ∀ a, NamesTemps (f a)) : NamesTemps (x >>= f) := by
  intro n b steps hxf s hs
  obtain ⟨a, first, later, hfirst, hlater, rfl⟩ := bind_eq_ok_iff.mp hxf
  rcases List.mem_append.mp hs with hs | hs
  · exact hx n a first hfirst s hs
  · exact hf a _ b later hlater s hs

end Translation

section Temporaries

open Translation

private theorem namesTemps_translateOperation (op : BinaryOp) (l r : Value) {base : String}
    (hbase : base ∈ tempBases) : NamesTemps (translateOperation op l r base) := by
  unfold translateOperation
  split
  · exact .pure _
  · exact .step _ hbase

private theorem namesTemps_translateWiden (v : Value) {base : String} (hbase : base ∈ tempBases) :
    NamesTemps (translateWiden v base) := by
  unfold translateWiden
  split
  · exact .pure _
  · exact .step _ hbase

private theorem namesTemps_translateBinary (op : Char) (l r : Value) :
    NamesTemps (translateBinary op l r) := by
  unfold translateBinary
  split
  · exact namesTemps_translateOperation .add l r (by decide)
  split
  · exact namesTemps_translateOperation .sub l r (by decide)
  split
  · exact namesTemps_translateOperation .mul l r (by decide)
  split
  · exact (namesTemps_translateOperation .less l r (by decide)).bind fun truth ↦
      namesTemps_translateWiden truth (by decide)
  · exact .fail _

variable {callee? : String → Option (FunctionId × Nat)}

private theorem namesTemps_translateCallee (name : String) (count : Nat) :
    NamesTemps (translateCallee callee? name count) := by
  unfold translateCallee
  split
  · exact .fail _
  · split
    · exact .pure _
    · exact .fail _

mutual

theorem namesTemps_translateExpr (scope : Scope) (e : Expr) :
    NamesTemps (translateExpr callee? scope e) := by
  cases e with
  | number d =>
    rw [translateExpr]
    exact .pure _
  | name x =>
    rw [translateExpr]
    cases scope.lookup x with
    | some v => exact .pure v
    | none => exact .fail _
  | binary op lhs rhs =>
    rw [translateExpr]
    exact (namesTemps_translateExpr scope lhs).bind fun l ↦
      (namesTemps_translateExpr scope rhs).bind fun r ↦ namesTemps_translateBinary op l r
  | call name args =>
    rw [translateExpr]
    exact (namesTemps_translateCallee name args.length).bind fun h ↦
      (namesTemps_translateArgs scope args).bind fun values ↦ .step _ (by decide)

theorem namesTemps_translateArgs (scope : Scope) (args : List Expr) :
    NamesTemps (translateArgs callee? scope args) := by
  cases args with
  | nil =>
    rw [translateArgs]
    exact .pure _
  | cons arg args =>
    rw [translateArgs]
    exact (namesTemps_translateExpr scope arg).bind fun v ↦
      (namesTemps_translateArgs scope args).bind fun vs ↦ .pure _

end

end Temporaries

/-- The label of a block does not end with a digit, so it is a candidate for no other base. -/
private theorem eq_entry_of_candidate {base : String} {n : Nat} (h : candidate base n = "entry") :
    base = "entry" := by
  refine eq_of_candidate_eq (fun c hc ↦ ?_) h
  cases hc
  rfl

namespace Ssa.Function

variable {f : Function} {params : List String} {block : Nat} {steps : List Step} {v : Value}
  {t : String}

private theorem exists_candidate_of_mem_temps_addSteps (ht : t ∈ (f.addSteps block steps).temps) :
    t ∈ f.temps ∨ ∃ s ∈ steps, ∃ n, t = candidate s.base n := by
  induction steps generalizing f with
  | nil => exact .inl ht
  | cons s steps ih =>
    have hrest : t ∈ f.temps ++ [freshName f.localNames s.base] ∨
        ∃ s ∈ steps, ∃ n, t = candidate s.base n :=
      ih (f := f.addOperation block s.operation (some s.base)) ht
    rcases hrest with hold | ⟨s', hs', hn⟩
    · rcases List.mem_append.mp hold with hold | hnew
      · exact .inl hold
      · obtain ⟨n, -, hn⟩ := exists_firstFree f.localNames s.base
        exact .inr ⟨s, List.mem_cons_self, n, (List.mem_singleton.mp hnew).trans hn⟩
    · exact .inr ⟨s', List.mem_cons_of_mem _ hs', hn⟩

/-! ## The functions of a run -/

/-- The function has at most one block, and its temporaries are named after the bases. -/
structure Lowered (f : Function) : Prop where
  labels : f.blocks = [] ∨ f.blocks.map Block.label = ["entry"]
  temps : ∀ t ∈ f.temps, ∃ base ∈ tempBases, ∃ n, t = candidate base n

theorem lowered_completed (hblocks : f.blocks = []) (htemps : f.temps = [])
    (hsteps : ∀ s ∈ steps, s.base ∈ tempBases) : (f.completed params steps v).Lowered where
  labels := by
    rw [blocks_completed hblocks htemps]
    exact .inr rfl
  temps := by
    intro t ht
    have ht : t ∈ ((f.opened params).addSteps 0 steps).temps := ht
    rcases exists_candidate_of_mem_temps_addSteps ht with hold | ⟨s, hs, hn⟩
    · rw [opened, temps_renamed, htemps] at hold
      cases hold
    · exact ⟨s.base, hsteps s hs, hn⟩

/-- No temporary is called as the block is: a candidate for a base can only be called so if the base
is. -/
private theorem Lowered.entry_notMem_temps (hf : f.Lowered) : "entry" ∉ f.temps := by
  intro hentry
  obtain ⟨base, hbase, n, hn⟩ := hf.temps _ hentry
  obtain rfl := eq_entry_of_candidate hn.symm
  revert hbase
  decide

theorem Lowered.nodup_labels (hf : f.Lowered) : (f.blocks.map Block.label).Nodup := by
  rcases hf.labels with hnil | hone
  · rw [hnil]
    exact List.nodup_nil
  · rw [hone]
    exact List.nodup_singleton _

theorem Lowered.label_eq (hf : f.Lowered) {b : Block} (hb : b ∈ f.blocks) : b.label = "entry" := by
  rcases hf.labels with hnil | hone
  · rw [hnil] at hb
    cases hb
  · exact List.mem_singleton.mp (hone ▸ List.mem_map_of_mem hb)

theorem Lowered.label_notMem_params_iff (hf : f.Lowered) :
    (∀ b ∈ f.blocks, b.label ∉ f.params) ↔ f.blocks = [] ∨ "entry" ∉ f.params := by
  constructor
  · intro hall
    cases hblocks : f.blocks with
    | nil => exact .inl rfl
    | cons b bs =>
      have hb : b ∈ f.blocks := hblocks ▸ List.mem_cons_self
      exact .inr (hf.label_eq hb ▸ hall b hb)
  · rintro (hnil | hentry) b hb
    · rw [hnil] at hb
      cases hb
    · rwa [hf.label_eq hb]

end Ssa.Function

namespace Lowering

variable {l l' : Lowering} {d : Definition} {h : FunctionId} {f : Function} {v : Value}
  {steps : List Step}

theorem kept_lowered {N : Prototype → Prop} : Kept N Function.Lowered where
  declared _ _ := ⟨.inl rfl, nofun⟩
  renamed _ hf := by
    refine ⟨?_, ?_⟩
    · rw [Function.blocks_renamed]
      exact hf.labels
    · rw [Function.temps_renamed]
      exact hf.temps
  completed _ hc _ := Function.lowered_completed hc.blocks hc.temps
    (namesTemps_translateExpr _ _ _ _ _ hc.translated)

/-- A parameter is called as the block is only if the definition has such a parameter. -/
theorem Completes.entry_mem (hc : Completes l d h l' f v steps)
    (hentry : "entry" ∈ (f.completed d.proto.params steps v).params) :
    "entry" ∈ d.proto.params := by
  rw [Function.params_completed hc.temps hc.length_params] at hentry
  rcases exists_candidate_of_mem_namesOver hentry with hnone | ⟨p, hp, n, hn⟩
  · cases hnone
  · rwa [← eq_entry_of_candidate hn.symm]

end Lowering

namespace Session

variable {s : Session}

/-- **When labels keep clear of the local names.** In every session that a run can come to, no two
blocks of a function have the same label, and no label is the name of a temporary. A label is the
name of a parameter exactly if the function has a body and a parameter called `entry`. For this a
definition has to have such a parameter, and if its name has not been declared, that is enough. -/
theorem labels_apart_iff (hs : s.Reachable) :
    (∀ h f, s.lowering.program.find? h = some f →
      (f.blocks.map Block.label).Nodup ∧ (∀ b ∈ f.blocks, b.label ∉ f.temps) ∧
      ((∀ b ∈ f.blocks, b.label ∉ f.params) ↔ f.blocks = [] ∨ "entry" ∉ f.params)) ∧
    ∀ d h, (s.lowering.define d).1 = .ok h → ∃ f,
      (s.lowering.define d).2.program.find? h = some f ∧ f.blocks ≠ [] ∧
      ("entry" ∈ f.params → "entry" ∈ d.proto.params) ∧
      (s.lowering.program.lookup? d.proto.name = none →
        "entry" ∈ d.proto.params → "entry" ∈ f.params) := by
  obtain ⟨T, hT⟩ := hs.exists_holds
  refine ⟨fun h f hf ↦ ?_, fun d h hd ↦ ?_⟩
  · have hlowered : f.Lowered := hs.all Lowering.kept_lowered h f hf
    refine ⟨hlowered.nodup_labels, fun b hb ↦ ?_, hlowered.label_notMem_params_iff⟩
    rw [hlowered.label_eq hb]
    exact hlowered.entry_notMem_temps
  · obtain ⟨f, v, steps, hc⟩ := Lowering.exists_completes_define hT.toSettled hd
    refine ⟨_, hc.find?_self, ?_, hc.entry_mem, fun hl hentry ↦ ?_⟩
    · rw [Function.blocks_completed hc.blocks hc.temps]
      exact List.cons_ne_nil _ _
    · rw [hc.params_eq_freshParams hT.toSettled hl]
      exact mem_namesOnto hentry

/-- The identity of a parameter called `entry` has a block of that name. -/
theorem labels_of_entry :
    let s := after (performDefinition ⟨⟨"f", ["entry"]⟩, .name "entry"⟩) (start "m" true)
    let f : Function := ⟨"f", ["entry"], [⟨"entry", [⟨none, .ret (.param 0)⟩]⟩], []⟩
    Reachable s ∧ s.lowering.program.find? ⟨0, 0⟩ = some f ∧
      ¬∀ b ∈ f.blocks, b.label ∉ f.params := by
  intro s f
  have hs : Reachable s := ⟨"m", true, .answer .refl
    (i := .statement (.definition ⟨⟨"f", ["entry"]⟩, .name "entry"⟩))
    ⟨show "f" ≠ "" by decide, trivial⟩⟩
  have hlowering : s.lowering =
      ((start "m" true).lowering.define ⟨⟨"f", ["entry"]⟩, .name "entry"⟩).2 :=
    lowering_after_performDefinition _ _
  have hf : s.lowering.program.find? ⟨0, 0⟩ = some f := by
    rw [hlowering]
    rfl
  obtain ⟨-, -, hparams⟩ := (labels_apart_iff hs).1 ⟨0, 0⟩ f hf
  refine ⟨hs, hf, fun hall ↦ ?_⟩
  rcases hparams.mp hall with hnil | hentry
  · exact List.cons_ne_nil _ _ hnil
  · exact hentry (List.mem_singleton_self _)

end Session

end FloatLang
