import FloatLang.Proofs.Answers
import FloatLang.Proofs.Order

/-!
# The table of functions

The slots of a module are used again, so that neither their number nor the order of the functions in
them need have anything to do with what has been declared. For a session with room for everything
they have. Between two items no slot is free but possibly the last one, which is the one where a
definition that failed or a top-level expression had been; and the slots before hold the functions
that have been declared, in the order in which their names were declared first.

`Lists` is the invariant. It speaks of the list of names instead of the slots, so that it is kept
for the reason that each new name goes to the end; what it means for the slots follows from there
being no gap among them.
-/

namespace FloatLang

open Ssa

/-! ## Slots without a gap -/

/-- If at most the last element has no image, the others keep their places. -/
private theorem getElem?_filterMap_of_last {α β : Type} (g : α → Option β) {l : List α}
    (hlast : ∀ (i : Nat) a, l[i]? = some a → g a = none → i + 1 = l.length) (i : Nat) :
    (l.filterMap g)[i]? = l[i]?.bind g := by
  induction l generalizing i with
  | nil => rfl
  | cons a l ih =>
    cases hg : g a with
    | none =>
      have hnil : l = [] := by
        have hlength := hlast 0 a rfl hg
        rw [List.length_cons] at hlength
        exact List.length_eq_zero_iff.mp (by omega)
      subst hnil
      cases i with
      | zero => simp [hg]
      | succ i => simp [hg]
    | some b =>
      rw [List.filterMap_cons_some hg]
      cases i with
      | zero => simp [hg]
      | succ i =>
        refine ih (fun j c hj hc ↦ ?_) i
        have hlength := hlast (j + 1) c hj hc
        rw [List.length_cons] at hlength
        omega

namespace Ssa.Module

variable {m : Module}

theorem functionNames_eq_filterMap (m : Module) :
    m.functionNames = m.slots.filterMap fun s ↦ s.function?.map Function.name := by
  have hzip : (m.slots.zipIdx.map Prod.fst).filterMap (fun s ↦ s.function?.map Function.name) =
      m.slots.filterMap fun s ↦ s.function?.map Function.name := by
    rw [List.zipIdx_map_fst]
  rw [functionNames, handles, List.map_filterMap, ← hzip, List.filterMap_map]
  refine List.filterMap_congr fun p hp ↦ ?_
  obtain ⟨s, i⟩ := p
  have hs : m.slots[i]? = some s := List.mk_mem_zipIdx_iff_getElem?.mp hp
  cases hf : s.function? with
  | none => simp [hf]
  | some f => simp [hf, find?, hs]

/-- In a tight module the free slot, if there is one, is the last, and the others hold the functions
in the order in which they are listed. -/
theorem Tight.slots (hm : m.Tidy) (ht : m.Tight) :
    m.free.length ≤ 1 ∧
      (∀ i : Nat, (m.slots[i]?.bind Slot.function?).map Function.name = m.functionNames[i]?) ∧
      m.slots.length ≤ m.functionNames.length + 1 := by
  have hget : ∀ i : Nat,
      (m.slots[i]?.bind Slot.function?).map Function.name = m.functionNames[i]? := by
    intro i
    have hlast : ∀ (j : Nat) s, m.slots[j]? = some s → s.function?.map Function.name = none →
        j + 1 = m.slots.length := fun j s hs hnone ↦
      ht j ((hm.mem_free_iff j).mpr ⟨s, hs, Option.map_eq_none_iff.mp hnone⟩)
    rw [functionNames_eq_filterMap, getElem?_filterMap_of_last _ hlast]
    cases m.slots[i]? <;> rfl
  refine ⟨?_, hget, ?_⟩
  · have hnodup := hm.nodup_free
    rcases hfree : m.free with _ | ⟨i, _ | ⟨j, free⟩⟩
    · exact Nat.zero_le _
    · exact Nat.le_refl _
    · -- two free slots would both be the last one
      have hi := ht i (by simp [hfree])
      have hj := ht j (by simp [hfree])
      rw [hfree, show i = j by omega] at hnodup
      exact absurd List.mem_cons_self (List.nodup_cons.mp hnodup).1
  · by_contra hlong
    -- the slot behind the functions that are listed is free, and yet not the last one
    have hlt : m.functionNames.length < m.slots.length := by omega
    have hnone := hget m.functionNames.length
    rw [List.getElem?_eq_none (Nat.le_refl _), List.getElem?_eq_getElem hlt, Option.bind_some,
      Option.map_eq_none_iff] at hnone
    have hlast := ht _ ((hm.mem_free_iff _).mpr ⟨_, List.getElem?_eq_getElem hlt, hnone⟩)
    omega

private theorem exists_text?_eq_join (hm : m.Consistent) (hwell : m.WellFormed) :
    ∃ texts, (m.functionNames.mapM fun n ↦ (m.lookup? n).bind m.functionText?) = some texts ∧
      m.text? = some ("; ModuleID = '" ++ m.name ++ "'\n" ++
        String.join (texts.map ("\n" ++ ·))) := by
  obtain ⟨texts, htexts⟩ := hwell.exists_functionTexts m.handles
  refine ⟨texts, (mapM_functionText? hm).symm.trans htexts, ?_⟩
  rw [text?, htexts]
  rfl

end Ssa.Module

/-! ## The names that are declared -/

namespace Lowering

/-- The name that an item declares, if it does so. A definition that fails declares nothing, and a
name may be declared again and again. -/
def declares? (l : Lowering) : Item → Option String
  | .statement (.definition d) => if (l.define d).1.isOk then some d.proto.name else none
  | .statement (.declaration p) => some p.name
  | .statement (.expression _) => none
  | .misread _ => none

/-- The names that items declare, one after the other. -/
def declaredBy (l : Lowering) : List Item → List String
  | [] => []
  | i :: items => (l.declares? i).toList ++ (l.answer i).left.declaredBy items

end Lowering

private theorem eraseDups_concat (names : List String) (n : String) :
    (names ++ [n]).eraseDups =
      if n ∈ names then names.eraseDups else names.eraseDups ++ [n] := by
  have hone : [n].eraseDups = [n] := by
    rw [List.eraseDups_cons, List.filter_nil, List.eraseDups_nil]
  rw [List.eraseDups_append]
  by_cases hn : n ∈ names
  · simp [List.removeAll, hn]
  · simp [List.removeAll, hn, hone]

/-- The functions that have been lowered are the ones with these names, listed as they occur first,
and nothing stands in the way of the next one being listed last. -/
structure Lists (title : String) (l : Lowering) (names : List String) : Prop where
  /-- What has been lowered is the translation of some sources. -/
  holds : ∃ T, l.program.Holds T
  orderly : l.program.Orderly
  anonymous : l.program.lookup? "" = none
  name : l.program.name = title
  functionNames : l.program.functionNames = names.eraseDups

namespace Lists

variable {title : String} {l : Lowering} {names : List String}

theorem start (title : String) : Lists title (.empty title) [] where
  holds := ⟨.empty, Module.holds_empty title⟩
  orderly := Module.orderly_empty title
  anonymous := rfl
  name := rfl
  functionNames := rfl

theorem settled (hl : Lists title l names) : l.program.Settled := by
  obtain ⟨T, hT⟩ := hl.holds
  exact hT.toSettled

theorem lookup?_eq_none_iff (hl : Lists title l names) {n : String} :
    l.program.lookup? n = none ↔ n ∉ names := by
  rw [← List.mem_eraseDups, ← hl.functionNames,
    Module.mem_functionNames_iff hl.settled.toConsistent, Bool.not_eq_true,
    Option.isSome_eq_false_iff, Option.isNone_iff_eq_none]

/-- The name that an item declares is listed behind the others, if it is new. -/
theorem functionNames_answer (hl : Lists title l names) {i : Item} (hi : i.Named) :
    (l.answer i).left.program.functionNames =
      (names ++ (l.declares? i).toList).eraseDups := by
  have hm := hl.settled
  have ht := hl.orderly.tight
  rcases i with (d | p | e) | what
  · rw [Lowering.left_answer_definition, Lowering.functionNames_define hm ht, hl.functionNames,
      Lowering.declares?]
    by_cases hok : (l.define d).1.isOk = true
    · rw [if_pos hok, Option.toList_some, eraseDups_concat]
      by_cases hold : d.proto.name ∈ names
      · rw [if_neg fun hnew ↦ hl.lookup?_eq_none_iff.mp hnew.2 hold, if_pos hold]
      · rw [if_pos ⟨hok, hl.lookup?_eq_none_iff.mpr hold⟩, if_neg hold]
    · rw [if_neg fun hnew ↦ hok hnew.1, if_neg hok, Option.toList_none, List.append_nil]
  · rw [Lowering.left_answer_declaration, Lowering.functionNames_declare hm ht, hl.functionNames,
      Lowering.declares?, Option.toList_some, eraseDups_concat]
    by_cases hold : p.name ∈ names
    · rw [if_pos hold, if_pos]
      exact Option.isSome_iff_ne_none.mpr fun hnone ↦ hl.lookup?_eq_none_iff.mp hnone hold
    · rw [if_neg hold, if_neg]
      rw [hl.lookup?_eq_none_iff.mpr hold]
      exact Bool.false_ne_true
  · rw [Lowering.declares?, Option.toList_none, List.append_nil, ← hl.functionNames]
    rcases hdefine : l.define (.ofExpr e) with ⟨err | h, l'⟩
    · have hnames := Lowering.functionNames_define hm ht (.ofExpr e)
      rw [hdefine, if_neg fun hnew ↦ nomatch hnew.1] at hnames
      rw [Lowering.left_answer_rejected hdefine, hnames]
    · rw [Lowering.left_answer_expression hl.holds hi hdefine]
      exact Lowering.functionNames_erase_expr hm hl.orderly hdefine
  · rw [Lowering.declares?, Option.toList_none, List.append_nil]
    exact hl.functionNames

theorem orderly_answer (hl : Lists title l names) {i : Item} (hi : i.Named) :
    (l.answer i).left.program.Orderly := by
  have hm := hl.settled
  rcases i with (d | p | e) | what
  · rw [Lowering.left_answer_definition]
    exact Lowering.orderly_define hm hl.orderly d
  · rw [Lowering.left_answer_declaration]
    exact Lowering.orderly_declare hm hl.orderly hi
  · have hdefined := Lowering.orderly_define hm hl.orderly (.ofExpr e)
    rcases hdefine : l.define (.ofExpr e) with ⟨err | h, l'⟩
    · rw [hdefine] at hdefined
      rwa [Lowering.left_answer_rejected hdefine]
    · rw [hdefine] at hdefined
      rw [Lowering.left_answer_expression hl.holds hi hdefine]
      exact hdefined.erase (Lowering.atEnd_define_expr hm hl.orderly hdefine)
  · exact hl.orderly

theorem name_answer (hl : Lists title l names) {i : Item} (hi : i.Named) :
    (l.answer i).left.program.name = title := by
  have hm := hl.settled
  rcases i with (d | p | e) | what
  · rw [Lowering.left_answer_definition, Lowering.name_define hm, hl.name]
  · rw [Lowering.left_answer_declaration, Lowering.name_declare, hl.name]
  · have hdefined := Lowering.name_define hm (.ofExpr e)
    rcases hdefine : l.define (.ofExpr e) with ⟨err | h, l'⟩
    · rw [hdefine] at hdefined
      rw [Lowering.left_answer_rejected hdefine, hdefined, hl.name]
    · rw [hdefine] at hdefined
      rw [Lowering.left_answer_expression hl.holds hi hdefine, Module.name_erase, hdefined, hl.name]
  · exact hl.name

theorem answer (hl : Lists title l names) {i : Item} (hi : i.Named) :
    Lists title (l.answer i).left (names ++ (l.declares? i).toList) where
  holds := Lowering.exists_holds_answer hl.holds hi
  orderly := hl.orderly_answer hi
  anonymous := Lowering.lookup?_answer hl.holds hl.anonymous hi
  name := hl.name_answer hi
  functionNames := hl.functionNames_answer hi

theorem acted {s : Session} (hs : s.Unhindered) (hl : Lists title s.lowering names)
    {items : List Item} (hitems : ∀ i ∈ items, i.Named) :
    Lists title (s.acted items).lowering (names ++ s.lowering.declaredBy items) := by
  induction items generalizing s names with
  | nil =>
    rw [Lowering.declaredBy, List.append_nil]
    exact hl
  | cons i items ih =>
    have hi := hitems i List.mem_cons_self
    obtain ⟨s', printed, hrun, hs', htold⟩ := hs.run_actItem hi
    have hl' := hl.answer hi
    rw [← show s'.lowering = (s.lowering.answer i).left from htold.lowering] at hl'
    have hrest := ih hs' hl' fun j hj ↦ hitems j (List.mem_cons_of_mem _ hj)
    rw [htold.lowering, List.append_assoc] at hrest
    rw [Lowering.declaredBy, Session.acted, List.foldl_cons, Session.after_of_run_ok hrun]
    exact hrest

end Lists

namespace Session

/-- **The table of functions is tight and in the order of the declarations.** Let a session with
room for everything go through lines, and look at it between any two items. No slot is free but
possibly the last one; the others hold the functions that definitions and declarations have
declared, in the order in which their names were declared first; none of them is without a name.
The text of the module is its header and the texts of these functions in this order. -/
theorem functions_are_listed_as_declared (name : String) (evaluates : Bool) (lines : List String) :
    (start name evaluates).handled lines = (start name evaluates).acted (Script.itemsOf lines) ∧
    ∀ k, let items := (Script.itemsOf lines).take k
    let m := ((start name evaluates).acted items).lowering.program
    let declared := ((Lowering.empty name).declaredBy items).eraseDups
    m.free.length ≤ 1 ∧ (∀ i ∈ m.free, i + 1 = m.slots.length) ∧
    (∀ i : Nat, (m.slots[i]?.bind Slot.function?).map Function.name = declared[i]?) ∧
    declared.Nodup ∧ "" ∉ declared ∧ m.slots.length ≤ declared.length + 1 ∧
    ∃ texts, (declared.mapM fun n ↦ (m.lookup? n).bind m.functionText?) = some texts ∧
      m.text? = some ("; ModuleID = '" ++ name ++ "'\n" ++
        String.join (texts.map ("\n" ++ ·))) := by
  have hstart : (start name evaluates).Unhindered := ⟨⟨.empty, Module.holds_empty name⟩, rfl⟩
  refine ⟨hstart.handled_eq lines, fun k ↦ ?_⟩
  intro items m declared
  have hnamed : ∀ i ∈ items, i.Named := by
    intro i hi
    obtain ⟨line, -, hline⟩ := List.mem_flatMap.mp (List.mem_of_mem_take hi)
    exact Script.named_ofText line i hline
  have hl : Lists name _ ([] ++ _) := (Lists.start name).acted hstart hnamed
  have hm := hl.settled
  obtain ⟨T, hT⟩ := hl.holds
  have hnames : m.functionNames = declared := hl.functionNames
  obtain ⟨hfree, hslots, hlength⟩ := hl.orderly.tight.slots hm.toTidy
  obtain ⟨texts, htexts, htext⟩ := Module.exists_text?_eq_join hm.toConsistent hT.wellFormed
  rw [hl.name] at htext
  rw [← hnames]
  refine ⟨hfree, hl.orderly.tight, hslots, Module.nodup_functionNames hm.toConsistent,
    fun hempty ↦ ?_, hlength, texts, htexts, htext⟩
  have hsome := (Module.mem_functionNames_iff hm.toConsistent).mp hempty
  rw [show m.lookup? "" = none from hl.anonymous] at hsome
  cases hsome

end Session

end FloatLang
