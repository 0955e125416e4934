import FloatLang.Proofs.Permanence

/-!
# The order of the functions

The text of a module lists its functions in the order of their slots. That this is the order in
which the names were declared is no matter of course, since slots are used again: a function that is
added might go in front of others. It does not as long as the only slot that is ever free is the
last one, and that is so as long as the only function that is ever erased is the last one.

Both definitions that fail and top-level expressions erase the function that has been added for
them, before another one is added.
-/

namespace FloatLang

open Ssa

namespace Ssa

namespace Module

variable {m m' : Module} {h h' : FunctionId} {f : Function}

/-! ## The last slot -/

/-- No slot is free but the last one. -/
def Tight (m : Module) : Prop := ∀ i ∈ m.free, i + 1 = m.slots.length

/-- The handle is one of the last slot, and no slot is free. -/
structure AtEnd (m : Module) (h : FunctionId) : Prop where
  free : m.free = []
  last : h.index + 1 = m.slots.length

theorem AtEnd.tight (hend : m.AtEnd h) : m.Tight := by
  rw [Tight, hend.free]
  nofun

theorem Tight.of_eq (hm : m.Tight) (hfree : m'.free = m.free)
    (hlength : m'.slots.length = m.slots.length) : m'.Tight := by
  rwa [Tight, hfree, hlength]

theorem AtEnd.of_eq (hend : m.AtEnd h) (hfree : m'.free = m.free)
    (hlength : m'.slots.length = m.slots.length) : m'.AtEnd h :=
  ⟨hfree.trans hend.free, hend.last.trans hlength.symm⟩

private theorem length_slots_update (m : Module) (h : FunctionId) (change : Function → Function) :
    (m.update h change).slots.length = m.slots.length := List.length_modify ..

private theorem length_slots_dropBody (m : Module) (h : FunctionId) :
    (m.dropBody h).slots.length = m.slots.length := by
  rw [slots_dropBody, length_slots_update]

private theorem length_slots_erase (m : Module) (h : FunctionId) :
    (m.erase h).slots.length = m.slots.length := by
  rw [erase]
  cases (m.dropBody h).find? h with
  | none => exact length_slots_dropBody m h
  | some f =>
    simp only [slots_unbind, List.length_set]
    exact length_slots_dropBody m h

private theorem mem_free_erase {i : Nat} (hi : i ∈ (m.erase h).free) :
    i = h.index ∨ i ∈ m.free := by
  rw [erase] at hi
  cases hf : (m.dropBody h).find? h with
  | none =>
    rw [hf, free_dropBody] at hi
    exact .inr hi
  | some f =>
    rw [hf] at hi
    simpa only [free_unbind, free_dropBody, List.mem_cons] using hi

/-- Erasing the function in the last slot frees that slot only. -/
theorem AtEnd.tight_erase (hend : m.AtEnd h) : (m.erase h).Tight := by
  intro i hi
  rw [length_slots_erase]
  rcases mem_free_erase hi with rfl | hi
  · exact hend.last
  · rw [hend.free] at hi
    cases hi

theorem atEnd_declare (hm : m.Tidy) (ht : m.Tight) (n : String) (params : List String) :
    (m.declare n params).2.AtEnd (m.declare n params).1 := by
  obtain ⟨i, free, s, hfree, hs, -, halloc⟩ | ⟨hfree, halloc⟩ :=
    hm.allocate_cases ⟨n, freshParams params, [], []⟩
  · have hlast : i + 1 = m.slots.length := ht i (by rw [hfree]; exact List.mem_cons_self)
    have hrest : free = [] := by
      -- another free slot would be the last one as well
      rw [List.eq_nil_iff_forall_not_mem]
      intro j hj
      have hj' := ht j (by rw [hfree]; exact List.mem_cons_of_mem _ hj)
      have hnodup := hm.nodup_free
      rw [hfree, List.nodup_cons, show i = j by omega] at hnodup
      exact hnodup.1 hj
    constructor
    · rw [declare, free_bind, halloc]
      exact hrest
    · rw [declare, slots_bind, halloc]
      simpa using hlast
  · constructor
    · rw [declare, free_bind, halloc]
      exact hfree
    · rw [declare, slots_bind, halloc]
      simp

/-! ## The live handles in order -/

private theorem pairwise_handles (m : Module) :
    m.handles.Pairwise fun h h' ↦ h.index < h'.index := by
  have hzip : m.slots.zipIdx.Pairwise fun p q ↦ p.2 < q.2 := by
    apply List.pairwise_map.mp
    rw [List.zipIdx_map_snd]
    exact List.pairwise_lt_range'
  have hindex : ∀ (p : Slot × Nat) (h : FunctionId),
      (if p.1.function?.isSome then some ⟨p.2, p.1.generation⟩ else none) = some h →
        h.index = p.2 := by
    rintro p h hh
    split at hh
    · exact congrArg FunctionId.index (Option.some.inj hh).symm
    · cases hh
  refine hzip.filterMap _ fun p q hpq h hh h' hh' ↦ ?_
  rw [hindex p h hh, hindex q h' hh']
  exact hpq

/-- The live handles, put in order, are the list of live handles. -/
private theorem handles_eq_of_mem_iff {l : List FunctionId}
    (hl : l.Pairwise fun h h' ↦ h.index < h'.index) (hmem : ∀ h, h ∈ l ↔ (m.find? h).isSome) :
    m.handles = l := by
  have hnodup : ∀ l : List FunctionId, l.Pairwise (fun h h' ↦ h.index < h'.index) → l.Nodup := by
    intro l hl
    refine List.Pairwise.imp ?_ hl
    rintro h _ hlt rfl
    exact Nat.lt_irrefl _ hlt
  have hperm : m.handles.Perm l :=
    (List.perm_ext_iff_of_nodup (hnodup _ m.pairwise_handles) (hnodup _ hl)).mpr fun h ↦
      mem_handles_iff.trans (hmem h).symm
  exact hperm.eq_of_pairwise (fun _ _ _ _ hlt hlt' ↦ absurd hlt' (Nat.lt_asymm hlt))
    m.pairwise_handles hl

/-- The names of the functions in the order of their slots. -/
def functionNames (m : Module) : List String :=
  m.handles.map fun h ↦ ((m.find? h).map Function.name).getD ""

theorem functionNames_congr
    (hname : ∀ h, (m.find? h).map Function.name = (m'.find? h).map Function.name) :
    m.functionNames = m'.functionNames := by
  have hlive : ∀ h, (m.find? h).isSome = (m'.find? h).isSome := fun h ↦ by
    rw [← Option.isSome_map (f := Function.name), hname, Option.isSome_map]
  rw [functionNames, functionNames, handles_congr hlive]
  exact List.map_congr_left fun h _ ↦ by rw [hname]

/-- The functions in order have the texts of the functions of their names. -/
theorem mapM_functionText? (hm : m.Consistent) :
    m.handles.mapM m.functionText? =
      m.functionNames.mapM fun n ↦ (m.lookup? n).bind m.functionText? := by
  refine mapM_congr_forall₂ ?_
  rw [functionNames, List.forall₂_map_right_iff]
  refine List.forall₂_same.mpr fun h hlive ↦ ?_
  obtain ⟨f, hf⟩ := Option.isSome_iff_exists.mp (mem_handles_iff.mp hlive)
  rw [hf, Option.map_some, Option.getD_some, hm.lookup?_of_find? hf]
  rfl

theorem mem_functionNames_iff (hm : m.Consistent) {name : String} :
    name ∈ m.functionNames ↔ (m.lookup? name).isSome = true := by
  rw [functionNames, List.mem_map]
  constructor
  · rintro ⟨h, hlive, hname⟩
    obtain ⟨f, hf⟩ := Option.isSome_iff_exists.mp (mem_handles_iff.mp hlive)
    rw [hf, Option.map_some, Option.getD_some] at hname
    rw [← hname, hm.lookup?_of_find? hf]
    rfl
  · intro hsome
    obtain ⟨h, hl⟩ := Option.isSome_iff_exists.mp hsome
    obtain ⟨f, hf, hname⟩ := hm.find?_of_lookup? hl
    refine ⟨h, mem_handles_iff.mpr (by rw [hf]; rfl), ?_⟩
    rw [hf, Option.map_some, Option.getD_some, hname]

theorem nodup_functionNames (hm : m.Consistent) : m.functionNames.Nodup := by
  refine List.pairwise_map.mpr (m.pairwise_handles.imp_of_mem ?_)
  intro h h' hlive hlive' hlt hname
  obtain ⟨f, hf⟩ := Option.isSome_iff_exists.mp (mem_handles_iff.mp hlive)
  obtain ⟨f', hf'⟩ := Option.isSome_iff_exists.mp (mem_handles_iff.mp hlive')
  rw [hf, hf'] at hname
  obtain rfl := hm.eq_of_name_eq hf hf' hname
  exact Nat.lt_irrefl _ hlt

theorem AtEnd.functionNames_eq (hend : m.AtEnd h) (hf : m.find? h = some f) :
    m.functionNames = (m.erase h).functionNames ++ [f.name] := by
  have hgone : ∀ h', ((m.erase h).find? h').isSome → h' ≠ h ∧ (m.find? h').isSome := by
    intro h' hlive
    rw [find?_erase] at hlive
    split at hlive
    · cases hlive
    · exact ⟨‹_›, hlive⟩
  have hhandles : m.handles = (m.erase h).handles ++ [h] := by
    refine handles_eq_of_mem_iff ?_ fun h' ↦ ?_
    · refine List.pairwise_append.mpr ⟨pairwise_handles _, List.pairwise_singleton _ _, ?_⟩
      intro h' hmem g hg
      obtain rfl := List.mem_singleton.mp hg
      obtain ⟨hne, hlive⟩ := hgone h' (mem_handles_iff.mp hmem)
      -- two live functions are not in the same slot
      obtain ⟨f', hf'⟩ := Option.isSome_iff_exists.mp hlive
      obtain ⟨s, hs, hgen, -⟩ := find?_eq_some_iff.mp hf
      obtain ⟨s', hs', hgen', -⟩ := find?_eq_some_iff.mp hf'
      have hlt := (List.getElem?_eq_some_iff.mp hs').1
      have hindex : h'.index ≠ g.index := by
        intro e
        rw [e, hs] at hs'
        obtain rfl := Option.some.inj hs'
        exact hne (by cases h'; cases g; simp_all)
      have hlast := hend.last
      omega
    · rw [List.mem_append, mem_handles_iff, List.mem_singleton]
      refine ⟨?_, fun hlive ↦ ?_⟩
      · rintro (hlive | rfl)
        · exact (hgone h' hlive).2
        · rw [hf]
          rfl
      · by_cases hh : h' = h
        · exact .inr hh
        · left
          rwa [find?_erase, if_neg hh]
  rw [functionNames, functionNames, hhandles, List.map_append, List.map_singleton, hf]
  refine congrArg (· ++ [f.name]) (List.map_congr_left fun h' hmem ↦ ?_)
  rw [find?_erase, if_neg (hgone h' (mem_handles_iff.mp hmem)).1]

theorem functionNames_of_added (hend : m'.AtEnd h) (hf : m'.find? h = some f)
    (hmiss : m.find? h = none) (hothers : ∀ h', h' ≠ h → m'.find? h' = m.find? h') :
    m'.functionNames = m.functionNames ++ [f.name] := by
  rw [hend.functionNames_eq hf]
  refine congrArg (· ++ [f.name]) (functionNames_congr fun h' ↦ ?_)
  rw [find?_erase]
  by_cases hh : h' = h
  · rw [if_pos hh, hh, hmiss]
  · rw [if_neg hh, hothers h' hh]

/-- No slot is free but the last one, and a function without a name has a body. -/
structure Orderly (m : Module) : Prop where
  tight : m.Tight
  named : ∀ {h f}, m.find? h = some f → f.blocks = [] → f.name ≠ ""

theorem orderly_empty (name : String) : (empty name).Orderly where
  tight := nofun
  named := by simp [empty, find?]

theorem Orderly.erase (ho : m.Orderly) (hend : m.AtEnd h) : (m.erase h).Orderly where
  tight := hend.tight_erase
  named := fun hf hblocks ↦ by
    rw [find?_erase] at hf
    split at hf
    · cases hf
    · exact ho.named hf hblocks

end Module

end Ssa

/-! ## Lowering keeps the order -/

namespace Lowering

variable {l l' : Lowering} {d : Definition} {p : Prototype} {h : FunctionId} {f : Function}

theorem atEnd_declare (hm : l.program.Settled) (ht : l.program.Tight)
    (hnew : l.program.lookup? p.name = none) : (l.declare p).2.program.AtEnd (l.declare p).1 := by
  rw [declare_of_lookup?_eq_none hnew]
  exact Module.atEnd_declare hm.toTidy ht _ _

private theorem tight_declare (hm : l.program.Settled) (ht : l.program.Tight) (p : Prototype) :
    (l.declare p).2.program.Tight := by
  cases hl : l.program.lookup? p.name with
  | some h => rwa [declare_of_lookup? hl]
  | none => exact (atEnd_declare hm ht hl).tight

private theorem tight_define (hm : l.program.Settled) (ht : l.program.Tight) (d : Definition) :
    (l.define d).2.program.Tight := by
  have hdeclare := tight_declare hm ht d.proto
  rcases define_cases hm d with ⟨e, -, heq⟩ | ⟨v, steps, -, -, heq⟩ | ⟨e, steps, -, -, heq⟩
  · rwa [heq]
  · rw [heq]
    exact hdeclare.of_eq rfl (Module.length_slots_update _ _ _)
  · rw [heq]
    show (takeBack _ _ _).Tight
    rw [takeBack]
    cases hl : l.program.lookup? d.proto.name with
    | some h =>
      refine hdeclare.of_eq (Module.free_dropBody _ _) ?_
      exact (Module.length_slots_dropBody _ _).trans (Module.length_slots_update _ _ _)
    | none =>
      have hend : (withSteps (l.declare d.proto).2.program (l.declare d.proto).1 d.proto.params
          steps).AtEnd (l.declare d.proto).1 :=
        (atEnd_declare hm ht hl).of_eq rfl (Module.length_slots_update _ _ _)
      exact hend.tight_erase

theorem atEnd_define (hm : l.program.Settled) (ht : l.program.Tight)
    (hd : l.define d = (.ok h, l')) (hnew : l.program.lookup? d.proto.name = none) :
    l'.program.AtEnd h := by
  rcases define_cases hm d with ⟨e, -, heq⟩ | ⟨v, steps, -, -, heq⟩ | ⟨e, steps, -, -, heq⟩
  · simp [hd] at heq
  · simp only [hd, Prod.mk.injEq, Except.ok.injEq] at heq
    obtain ⟨rfl, rfl⟩ := heq
    exact (atEnd_declare hm ht hnew).of_eq rfl (Module.length_slots_update _ _ _)
  · simp [hd] at heq

private theorem find?_remnant_eq_map (m : Module) (p : Prototype) (h : FunctionId) :
    ∃ change : Function → Function,
      (∀ f, (change f).name = f.name ∧ (change f).blocks = f.blocks) ∧
        (remnant m p).find? h = (m.find? h).map change := by
  have hsame : m.find? h = (m.find? h).map id := by cases m.find? h <;> rfl
  rw [remnant]
  split
  · rename_i h' _ _
    rw [Module.find?_update]
    by_cases hh : h = h'
    · exact ⟨_, fun f ↦ ⟨f.name_renamed _, f.blocks_renamed _⟩, if_pos hh⟩
    · exact ⟨id, fun _ ↦ ⟨rfl, rfl⟩, (if_neg hh).trans hsame⟩
  · exact ⟨id, fun _ ↦ ⟨rfl, rfl⟩, hsame⟩

theorem orderly_declare (hm : l.program.Settled) (ho : l.program.Orderly) (hp : p.Named) :
    (l.declare p).2.program.Orderly where
  tight := tight_declare hm ho.tight p
  named := fun {h f} hf hblocks ↦ by
    cases hl : l.program.lookup? p.name with
    | some h' =>
      rw [declare_of_lookup? hl] at hf
      exact ho.named hf hblocks
    | none =>
      rw [declare_of_lookup?_eq_none hl, hm.find?_declare] at hf
      split at hf
      · rw [← Option.some.inj hf]
        exact hp
      · exact ho.named hf hblocks

theorem orderly_define (hm : l.program.Settled) (ho : l.program.Orderly) (d : Definition) :
    (l.define d).2.program.Orderly where
  tight := tight_define hm ho.tight d
  named := fun {h f} hf hblocks ↦ by
    cases hd : l.define d with
    | mk r l' =>
      rw [hd] at hf
      cases r with
      | ok h' =>
        obtain ⟨-, g, v, steps, hc⟩ := exists_completes hm hd
        rw [hc.find?] at hf
        split at hf
        · rw [← Option.some.inj hf, Function.blocks_completed hc.blocks hc.temps] at hblocks
          cases hblocks
        · exact ho.named hf hblocks
      | error e =>
        obtain ⟨change, hchange, hrem⟩ := find?_remnant_eq_map l.program d.proto h
        rw [(views_of_define_error hm hd).2, hrem, Option.map_eq_some_iff] at hf
        obtain ⟨g, hg, rfl⟩ := hf
        rw [(hchange g).1]
        exact ho.named hg ((hchange g).2 ▸ hblocks)

theorem lookup?_eq_none_of_refusal? (hm : l.program.Settled) (ho : l.program.Orderly) {e : Expr}
    (hr : refusal? l.program (Definition.ofExpr e).proto = none) :
    l.program.lookup? "" = none := by
  by_contra hsome
  obtain ⟨h', hl⟩ := Option.ne_none_iff_exists'.mp hsome
  obtain ⟨f, hf, hname⟩ := hm.find?_of_lookup? hl
  exact ho.named hf ((refusal?_eq_none_iff hl hf).mp hr).1 hname

theorem lookup?_eq_none_of_define_expr (hm : l.program.Settled) (ho : l.program.Orderly) {e : Expr}
    (hd : l.define (.ofExpr e) = (.ok h, l')) : l.program.lookup? "" = none :=
  lookup?_eq_none_of_refusal? hm ho (exists_completes hm hd).1

theorem atEnd_define_expr (hm : l.program.Settled) (ho : l.program.Orderly) {e : Expr}
    (hd : l.define (.ofExpr e) = (.ok h, l')) : l'.program.AtEnd h :=
  atEnd_define hm ho.tight hd (lookup?_eq_none_of_define_expr hm ho hd)

/-! ## The list of names -/

/-- A declaration of a new name is listed behind the others. -/
theorem functionNames_declare (hm : l.program.Settled) (ht : l.program.Tight) (p : Prototype) :
    (l.declare p).2.program.functionNames =
      if (l.program.lookup? p.name).isSome then l.program.functionNames
      else l.program.functionNames ++ [p.name] := by
  cases hl : l.program.lookup? p.name with
  | some h =>
    rw [declare_of_lookup? hl]
    rfl
  | none =>
    have hend := atEnd_declare hm ht hl
    rw [declare_of_lookup?_eq_none hl] at hend ⊢
    exact Module.functionNames_of_added hend ((hm.find?_declare _ _ _).trans (if_pos rfl))
      (hm.find?_declare_fst _ _) fun h' hh ↦ (hm.find?_declare _ _ _).trans (if_neg hh)

/-- A definition of a new name that is accepted is listed behind the others, and any other
definition leaves the list as it is. -/
theorem functionNames_define (hm : l.program.Settled) (ht : l.program.Tight) (d : Definition) :
    (l.define d).2.program.functionNames =
      if (l.define d).1.isOk ∧ l.program.lookup? d.proto.name = none
      then l.program.functionNames ++ [d.proto.name] else l.program.functionNames := by
  cases hd : l.define d with
  | mk r l' =>
    cases r with
    | error e =>
      rw [if_neg fun hc ↦ nomatch hc.1]
      refine Module.functionNames_congr fun h ↦ ?_
      obtain ⟨change, hchange, hrem⟩ := find?_remnant_eq_map l.program d.proto h
      rw [(views_of_define_error hm hd).2, hrem, Option.map_map]
      exact congrArg (Option.map · _) (funext fun f ↦ (hchange f).1)
    | ok h =>
      obtain ⟨-, f, v, steps, hc⟩ := exists_completes hm hd
      rcases hc.before with hf | ⟨hmiss, hnew⟩
      · have hl := hm.lookup?_of_find? hf
        rw [hc.name] at hl
        rw [if_neg fun hc' ↦ by rw [hl] at hc'; cases hc'.2]
        refine Module.functionNames_congr fun h' ↦ ?_
        rw [hc.find?]
        by_cases hh : h' = h
        · rw [if_pos hh, hh, hf, Option.map_some, Option.map_some, Function.name_completed]
        · rw [if_neg hh]
      · rw [if_pos ⟨rfl, hnew⟩,
          Module.functionNames_of_added (atEnd_define hm ht hd hnew) hc.find?_self hmiss fun h' hh ↦
            (hc.find? h').trans (if_neg hh), Function.name_completed, hc.name]

/-- A top-level expression is not listed any more when it has been erased. -/
theorem functionNames_erase_expr (hm : l.program.Settled) (ho : l.program.Orderly) {e : Expr}
    (hd : l.define (.ofExpr e) = (.ok h, l')) :
    (l'.program.erase h).functionNames = l.program.functionNames := by
  obtain ⟨-, f, v, steps, hc⟩ := exists_completes hm hd
  have hnames := functionNames_define hm ho.tight (.ofExpr e)
  rw [hd, if_pos ⟨rfl, lookup?_eq_none_of_define_expr hm ho hd⟩,
    (atEnd_define_expr hm ho hd).functionNames_eq hc.find?_self, Function.name_completed,
    hc.name] at hnames
  exact List.append_cancel_right hnames

end Lowering

end FloatLang
