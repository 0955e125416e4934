import FloatLang.Proofs.Delimiters
import FloatLang.Proofs.LocalNames
import FloatLang.Proofs.Twins

/-!
# Reading a function off its text

The names, constants and callees in the text of a function end where they do, because a delimiter
follows each of them and none is in it. So two functions with the same text have the same words at
the same places, and as long as no two values of a function share a name, the words determine the
instructions.

The temporaries have to come first. An operand is written as a name, and which temporary that is can
be said only when the names of all temporaries are known. They stand in front of the lines, and the
lines can be told apart without looking into them: a line feed ends each of them and occurs nowhere
else. Once the names are known to agree, the lines are compared one by one.

Handles are not written, and so the callees of two functions with the same text need not have the
same handles; they have the same name.
-/

namespace FloatLang

open Ssa

namespace Ssa

/-! ## Names and operands -/

namespace Function

variable {f f' : Function} {v w : Value} {t : String}

/-- All names in a function are words, but that the name of the function itself may be empty. -/
structure Spelled (f : Function) : Prop where
  name : Alphanumeric f.name
  params : ∀ x ∈ f.params, Alphanumeric x
  temps : ∀ x ∈ f.temps, Alphanumeric x

theorem Spelled.solid_globalName (hf : f.Spelled) : Solid f.globalName.toList := by
  rw [globalName]
  split
  · decide
  · rw [String.toList_append]
    exact solid_append (by decide) hf.name.solid

/-- A function is called by its name, and the quotation marks of the one without a name are in no
other name. -/
theorem Spelled.name_eq (hf : f.Spelled) (hf' : f'.Spelled) (h : f.globalName = f'.globalName) :
    f.name = f'.name := by
  have hquoted : ∀ {g : Function}, g.Spelled → "@" ++ g.name ≠ "@\"\"" := by
    intro g hg heq
    have hname := (String.append_right_inj "@").mp (heq.trans (by decide : _ = "@" ++ "\"\""))
    have hquote := hg.name '"' (by rw [hname]; decide)
    exact absurd hquote (by decide)
  rw [globalName, globalName] at h
  split at h <;> rename_i hempty <;> split at h <;> rename_i hempty'
  · rw [String.isEmpty_iff.mp hempty, String.isEmpty_iff.mp hempty']
  · exact absurd h.symm (hquoted hf')
  · exact absurd h (hquoted hf)
  · exact (String.append_right_inj "@").mp h

theorem Spelled.solid_operandText? (hf : f.Spelled) (hv : ∀ c, v ≠ .bool c)
    (ht : f.operandText? v = some t) : Solid t.toList := by
  have hlocal : ∀ {names : List String} {i : Nat}, (∀ x ∈ names, Alphanumeric x) →
      names[i]?.map ("%" ++ ·) = some t → Solid t.toList := by
    intro names i hnames hi
    obtain ⟨x, hx, rfl⟩ := Option.map_eq_some_iff.mp hi
    rw [String.toList_append]
    exact solid_append (by decide) (hnames x (List.mem_of_getElem? hx)).solid
  cases v with
  | const d =>
    rw [← Option.some.inj ht, String.toList_ofList]
    exact d.solid_constantText
  | bool c => exact absurd rfl (hv c)
  | param i => exact hlocal hf.params ht
  | temp i => exact hlocal hf.temps ht

/-- In functions with the same local names, operands that are written the same are the same. -/
theorem Unambiguous.operand_eq (hf : f.Unambiguous) (hparams : f.params = f'.params)
    (htemps : f.temps = f'.temps) (hv : ∀ c, v ≠ .bool c) (hw : ∀ c, w ≠ .bool c)
    (ht : f.operandText? v = some t) (ht' : f'.operandText? w = some t) : v = w := by
  rw [← operandText?_congr hparams htemps] at ht'
  have hlocal : ∀ {u : Value}, (∀ c, u ≠ .bool c) → f.operandText? u = some t →
      (∃ d, u = .const d ∧ t = String.ofList d.constantText) ∨ ∃ x, t = "%" ++ x := by
    intro u hu htext
    cases u with
    | const d => exact .inl ⟨d, rfl, (Option.some.inj htext).symm⟩
    | bool c => exact absurd rfl (hu c)
    | param i =>
      obtain ⟨x, -, hx⟩ := Option.map_eq_some_iff.mp htext
      exact .inr ⟨x, hx.symm⟩
    | temp i =>
      obtain ⟨x, -, hx⟩ := Option.map_eq_some_iff.mp htext
      exact .inr ⟨x, hx.symm⟩
  rcases hlocal hv ht with ⟨d, rfl, hd⟩ | ⟨x, rfl⟩
  · rcases hlocal hw ht' with ⟨d', rfl, hd'⟩ | ⟨x, rfl⟩
    · rw [Double.constantText_inj.mp (String.ofList_injective (hd.symm.trans hd'))]
    · exact hf.eq_of_operandText? ht ht'
  · exact hf.eq_of_operandText? ht ht'

end Function

/-! ## Operations -/

/-- What the text of an operation begins with. -/
inductive Keyword
  | binary (op : BinaryOp)
  | widen
  | call
  | ret

/-- The words of a keyword, up to the first operand. -/
def Keyword.text : Keyword → String
  | binary op => op.text ++ " double "
  | widen => "uitofp i1 "
  | call => "call double "
  | ret => "ret double "

/-- The keyword of an operation. -/
def Operation.keyword : Operation → Keyword
  | .binary op _ _ => .binary op
  | .widen _ => .widen
  | .call _ _ => .call
  | .ret _ => .ret

/-- What stands behind the keyword of an operation. -/
def Module.operandsText? (m : Module) (f : Function) : Operation → Option String
  | .binary _ lhs rhs => do
    let l ← f.operandText? lhs
    let r ← f.operandText? rhs
    return l ++ ", " ++ r
  | .widen v => do
    let v ← f.operandText? v
    return v ++ " to double"
  | .call callee args => do
    let args ← args.mapM f.operandText?
    return m.calleeText callee ++ "(" ++ typedList args ++ ")"
  | .ret v => f.operandText? v

/-- The first four characters tell the keywords apart. -/
private theorem Keyword.text_inj {k k' : Keyword} {s s' : String}
    (h : k.text ++ s = k'.text ++ s') :
    k = k' ∧ s = s' := by
  have hstart : ∀ k : Keyword, ∀ s : String,
      (k.text ++ s).toList.take 4 = k.text.toList.take 4 := by
    intro k s
    rw [String.toList_append, List.take_append_of_le_length]
    rcases k with (_ | _ | _ | _) | _ | _ | _ <;> decide
  have hfour : k.text.toList.take 4 = k'.text.toList.take 4 := by
    rw [← hstart k s, h, hstart]
  obtain rfl : k = k' := by
    rcases k with (_ | _ | _ | _) | _ | _ | _ <;> rcases k' with (_ | _ | _ | _) | _ | _ | _ <;>
      first | rfl | exact absurd hfour (by decide)
  exact ⟨rfl, (String.append_right_inj _).mp h⟩

private theorem Module.operationText?_eq (m : Module) (f : Function) (op : Operation) :
    m.operationText? f op = (m.operandsText? f op).map (op.keyword.text ++ ·) := by
  cases op with
  | binary op l r =>
    rw [operationText?, operandsText?]
    cases f.operandText? l with
    | none => rfl
    | some l =>
      cases f.operandText? r with
      | none => rfl
      | some r => simp [Operation.keyword, Keyword.text, String.append_assoc]
  | widen v =>
    rw [operationText?, operandsText?]
    cases f.operandText? v with
    | none => rfl
    | some v => simp [Operation.keyword, Keyword.text, String.append_assoc]
  | call callee args =>
    rw [operationText?, operandsText?]
    cases args.mapM f.operandText? with
    | none => rfl
    | some args => simp [Operation.keyword, Keyword.text, String.append_assoc, typedList]
  | ret v =>
    rw [operationText?, operandsText?]
    cases f.operandText? v with
    | none => rfl
    | some v => rfl

/-- The functions have the same name. -/
def Module.Namesakes (m m' : Module) (h h' : FunctionId) : Prop :=
  ∃ g g', m.find? h = some g ∧ m'.find? h' = some g' ∧ g.name = g'.name

/-- No truth value is written out, and a callee is live. -/
structure Operation.Legible (m : Module) (op : Operation) : Prop where
  bools : ∀ v ∈ op.operands, ∀ c, v ≠ .bool c
  callee : ∀ h args, op = .call h args → ∃ g, m.find? h = some g ∧ g.Spelled

section Operations

variable {m m' : Module} {f f' : Function} {op op' : Operation} {t : String}

/-- In functions with the same local names, operations that are written the same match. -/
theorem Operation.Legible.matches_of_text (hop : op.Legible m) (hop' : op'.Legible m')
    (hf : f.Spelled) (hf' : f'.Spelled) (hsingle : f.Unambiguous) (hparams : f.params = f'.params)
    (htemps : f.temps = f'.temps) (ht : m.operationText? f op = some t)
    (ht' : m'.operationText? f' op' = some t) : op.Matches (m.Namesakes m') op' := by
  have hoperand : ∀ {v w t}, v ∈ op.operands → w ∈ op'.operands → f.operandText? v = some t →
      f'.operandText? w = some t → v = w := fun hv hw ↦
    hsingle.operand_eq hparams htemps (hop.bools _ hv) (hop'.bools _ hw)
  have hsolid : ∀ {v t}, v ∈ op.operands → f.operandText? v = some t → Solid t.toList := fun hv ↦
    hf.solid_operandText? (hop.bools _ hv)
  have hsolid' : ∀ {v t}, v ∈ op'.operands → f'.operandText? v = some t → Solid t.toList :=
    fun hv ↦ hf'.solid_operandText? (hop'.bools _ hv)
  rw [Module.operationText?_eq] at ht ht'
  obtain ⟨s, hs, rfl⟩ := Option.map_eq_some_iff.mp ht
  obtain ⟨s', hs', heq⟩ := Option.map_eq_some_iff.mp ht'
  obtain ⟨hkeyword, rfl⟩ := Keyword.text_inj heq
  cases op with
  | binary o l r =>
    cases op' with
    | binary o' l' r' =>
      obtain rfl := Keyword.binary.inj hkeyword
      obtain ⟨lhs, hl, hs⟩ := Option.bind_eq_some_iff.mp hs
      obtain ⟨rhs, hr, hs⟩ := Option.bind_eq_some_iff.mp hs
      obtain ⟨lhs', hl', hs'⟩ := Option.bind_eq_some_iff.mp hs'
      obtain ⟨rhs', hr', hs'⟩ := Option.bind_eq_some_iff.mp hs'
      have hmem : ∀ u w : Value, u ∈ [u, w] ∧ w ∈ [u, w] := by simp
      obtain ⟨rfl, rfl⟩ := pair_inj (hsolid (hmem l r).1 hl) (hsolid' (hmem l' r').1 hl')
        ((Option.some.inj hs).trans (Option.some.inj hs').symm)
      obtain rfl := hoperand (hmem l r).1 (hmem l' r').1 hl hl'
      obtain rfl := hoperand (hmem l r).2 (hmem l r').2 hr hr'
      exact .binary _ l r
    | _ => cases hkeyword
  | widen v =>
    cases op' with
    | widen v' =>
      obtain ⟨text, hv, hs⟩ := Option.bind_eq_some_iff.mp hs
      obtain ⟨text', hv', hs'⟩ := Option.bind_eq_some_iff.mp hs'
      obtain rfl : text = text' := (String.append_left_inj " to double").mp
        ((Option.some.inj hs).trans (Option.some.inj hs').symm)
      obtain rfl := hoperand (List.mem_singleton_self v) (List.mem_singleton_self v') hv hv'
      exact .widen v
    | _ => cases hkeyword
  | call h args =>
    cases op' with
    | call h' args' =>
      obtain ⟨g, hg, hname⟩ := hop.callee h args rfl
      obtain ⟨g', hg', hname'⟩ := hop'.callee h' args' rfl
      obtain ⟨texts, htexts, hs⟩ := Option.bind_eq_some_iff.mp hs
      obtain ⟨texts', htexts', hs'⟩ := Option.bind_eq_some_iff.mp hs'
      have hcalls := (Option.some.inj hs).trans (Option.some.inj hs').symm
      rw [Module.calleeText_of_find? hg, Module.calleeText_of_find? hg'] at hcalls
      have hwords : ∀ y ∈ texts, Solid y.toList := by
        intro y hy
        obtain ⟨v, hv, htext⟩ := exists_mem_of_mapM htexts hy
        exact hsolid hv htext
      have hwords' : ∀ y ∈ texts', Solid y.toList := by
        intro y hy
        obtain ⟨v, hv, htext⟩ := exists_mem_of_mapM htexts' hy
        exact hsolid' hv htext
      obtain ⟨hcallee, rfl⟩ := call_inj hname.solid_globalName hname'.solid_globalName hwords
        hwords' hcalls
      have hargs : List.Forall₂ Eq args args' := forall₂_of_mapM_eq htexts htexts'
        fun v hv w hw t ↦ hoperand hv hw
      rw [List.forall₂_eq_eq_eq] at hargs
      obtain rfl := hargs
      exact .call ⟨g, g', hg, hg', hname.name_eq hname' hcallee⟩ args
    | _ => cases hkeyword
  | ret v =>
    cases op' with
    | ret v' =>
      obtain rfl := hoperand (List.mem_singleton_self v) (List.mem_singleton_self v') hs hs'
      exact .ret v
    | _ => cases hkeyword

theorem Operation.Legible.newline_notMem (hop : op.Legible m) (hf : f.Spelled)
    (ht : m.operationText? f op = some t) : '\n' ∉ t.toList := by
  have hsolid : ∀ {v t}, v ∈ op.operands → f.operandText? v = some t → '\n' ∉ t.toList :=
    fun hv htext ↦ (hf.solid_operandText? (hop.bools _ hv) htext).newline_notMem
  have hkeyword : ∀ k : Keyword, '\n' ∉ k.text.toList := by
    rintro ((_ | _ | _ | _) | _ | _ | _) <;> decide
  rw [Module.operationText?_eq] at ht
  obtain ⟨s, hs, rfl⟩ := Option.map_eq_some_iff.mp ht
  rw [String.toList_append]
  refine List.not_mem_append (hkeyword _) ?_
  cases op with
  | binary o l r =>
    obtain ⟨lhs, hl, hs⟩ := Option.bind_eq_some_iff.mp hs
    obtain ⟨rhs, hr, hs⟩ := Option.bind_eq_some_iff.mp hs
    rw [← Option.some.inj hs, String.toList_append, String.toList_append]
    exact List.not_mem_append (List.not_mem_append
      (hsolid List.mem_cons_self hl) (by decide))
      (hsolid (List.mem_cons_of_mem _ (List.mem_singleton_self r)) hr)
  | widen v =>
    obtain ⟨text, hv, hs⟩ := Option.bind_eq_some_iff.mp hs
    rw [← Option.some.inj hs, String.toList_append]
    exact List.not_mem_append (hsolid (List.mem_singleton_self v) hv) (by decide)
  | call h args =>
    obtain ⟨g, hg, hname⟩ := hop.callee h args rfl
    obtain ⟨texts, htexts, hs⟩ := Option.bind_eq_some_iff.mp hs
    have hlist : '\n' ∉ (typedList texts).toList := by
      refine newline_notMem_typedList fun y hy ↦ ?_
      obtain ⟨v, hv, htext⟩ := exists_mem_of_mapM htexts hy
      exact hsolid hv htext
    rw [Module.calleeText_of_find? hg] at hs
    rw [← Option.some.inj hs, String.toList_append, String.toList_append, String.toList_append]
    exact List.not_mem_append (List.not_mem_append (List.not_mem_append
      hname.solid_globalName.newline_notMem (by decide)) hlist) (by decide)
  | ret v => exact hsolid (List.mem_singleton_self v) hs

end Operations

/-! ## Lines -/

/-- What stands in front of the operation in a line. -/
def Function.resultText? (f : Function) : Option Nat → Option String
  | some t => f.temps[t]?.map fun name ↦ "  %" ++ name ++ " = "
  | none => some "  "

section Lines

variable {m m' : Module} {f f' : Function} {i i' : Instruction} {line : String}

private theorem exists_of_instructionText? (h : m.instructionText? f i = some line) :
    ∃ head body, f.resultText? i.result = some head ∧
      m.operationText? f i.operation = some body ∧ line = head ++ body ++ "\n" := by
  obtain ⟨body, hbody, h⟩ := Option.bind_eq_some_iff.mp h
  cases hresult : i.result with
  | none =>
    rw [hresult] at h
    exact ⟨_, body, rfl, hbody, (Option.some.inj h).symm⟩
  | some t =>
    rw [hresult] at h
    obtain ⟨name, hname, h⟩ := Option.bind_eq_some_iff.mp h
    exact ⟨_, body, Option.map_eq_some_iff.mpr ⟨name, hname, rfl⟩, hbody,
      (Option.some.inj h).symm⟩

/-- An operation does not begin like a local name. -/
private theorem head?_operationText?_ne {op : Operation} {t : String}
    (ht : m.operationText? f op = some t) : t.toList.head? ≠ some '%' := by
  have hkeyword : ∀ k : Keyword, ∃ c, k.text.toList.head? = some c ∧ c ≠ '%' := by
    rintro ((_ | _ | _ | _) | _ | _ | _) <;> exact ⟨_, rfl, by decide⟩
  rw [Module.operationText?_eq] at ht
  obtain ⟨s, -, rfl⟩ := Option.map_eq_some_iff.mp ht
  obtain ⟨c, hc, hne⟩ := hkeyword op.keyword
  rw [String.toList_append, List.head?_append, hc]
  exact fun h ↦ hne (Option.some.inj h)

private theorem eq_of_resultText?_eq_some {r : Option Nat} {head : String}
    (hr : f.resultText? r = some head) :
    (r = none ∧ head = "  ") ∨
      ∃ t x, r = some t ∧ f.temps[t]? = some x ∧ head = "  %" ++ x ++ " = " := by
  cases r with
  | none => exact .inl ⟨rfl, (Option.some.inj hr).symm⟩
  | some t =>
    obtain ⟨x, hx, rfl⟩ := Option.map_eq_some_iff.mp hr
    exact .inr ⟨t, x, rfl, hx, rfl⟩

private theorem append_ne_result {s s' x : String} (hs : s.toList.head? ≠ some '%') :
    "  " ++ s ≠ "  %" ++ x ++ " = " ++ s' := by
  intro h
  have hthird := congrArg (fun s : String ↦ (s.toList.drop 2).head?) h
  simp only [String.toList_append] at hthird
  exact hs hthird

/-- In a line one can see where the operation begins. -/
private theorem Function.Spelled.head_eq (hf : f.Spelled) (hf' : f'.Spelled) {r r' : Option Nat}
    {head head' body body' : String} (hr : f.resultText? r = some head)
    (hr' : f'.resultText? r' = some head') (hbody : body.toList.head? ≠ some '%')
    (hbody' : body'.toList.head? ≠ some '%') (h : head ++ body = head' ++ body') :
    head = head' ∧ body = body' := by
  rcases eq_of_resultText?_eq_some hr with ⟨-, rfl⟩ | ⟨t, x, -, hx, rfl⟩ <;>
    rcases eq_of_resultText?_eq_some hr' with ⟨-, rfl⟩ | ⟨t', x', -, hx', rfl⟩
  · exact ⟨rfl, (String.append_right_inj _).mp h⟩
  · exact absurd h (append_ne_result hbody)
  · exact absurd h.symm (append_ne_result hbody')
  · have hchars := congrArg String.toList h
    simp only [String.toList_append, List.append_assoc, List.append_right_inj] at hchars
    obtain ⟨hname, hrest⟩ := (hf.temps x (List.mem_of_getElem? hx)).solid.append_inj
      (hf'.temps x' (List.mem_of_getElem? hx')).solid
      (delimited_append (c := ' ') rfl (by decide) _)
      (delimited_append (c := ' ') rfl (by decide) _) hchars
    rw [String.toList_inj.mp hname, String.toList_inj.mp ((List.append_right_inj _).mp hrest)]
    exact ⟨rfl, rfl⟩

private theorem Function.Unambiguous.result_eq (hf : f.Unambiguous) (htemps : f.temps = f'.temps)
    {r r' : Option Nat} {head : String} (hr : f.resultText? r = some head)
    (hr' : f'.resultText? r' = some head) : r = r' := by
  have hmissing : ∀ {x : String}, "  " ≠ "  %" ++ x ++ " = " := by
    intro x h
    have hempty : "  " ++ "" = "  %" ++ x ++ " = " ++ "" := by
      rwa [String.append_empty, String.append_empty]
    exact append_ne_result (by decide) hempty
  rcases eq_of_resultText?_eq_some hr with ⟨rfl, rfl⟩ | ⟨t, x, rfl, hx, rfl⟩ <;>
    rcases eq_of_resultText?_eq_some hr' with ⟨rfl, h⟩ | ⟨t', x', rfl, hx', h⟩
  · rfl
  · exact absurd h hmissing
  · exact absurd h.symm hmissing
  · obtain rfl := (String.append_right_inj _).mp ((String.append_left_inj _).mp h)
    rw [← htemps] at hx'
    have hnodup := (List.nodup_append.mp hf.nodup).2.1
    have hlt := (List.getElem?_eq_some_iff.mp hx).1
    rw [(List.getElem?_inj hlt hnodup).mp (hx.trans hx'.symm)]

theorem Operation.Legible.instruction_matches (hi : i.operation.Legible m)
    (hi' : i'.operation.Legible m') (hf : f.Spelled) (hf' : f'.Spelled) (hsingle : f.Unambiguous)
    (hparams : f.params = f'.params) (htemps : f.temps = f'.temps)
    (h : m.instructionText? f i = some line) (h' : m'.instructionText? f' i' = some line) :
    i.Matches (m.Namesakes m') i' := by
  obtain ⟨head, body, hhead, hbody, rfl⟩ := exists_of_instructionText? h
  obtain ⟨head', body', hhead', hbody', hline⟩ := exists_of_instructionText? h'
  obtain ⟨rfl, rfl⟩ := hf.head_eq hf' hhead hhead' (head?_operationText?_ne hbody)
    (head?_operationText?_ne hbody') ((String.append_left_inj _).mp hline)
  exact ⟨hsingle.result_eq htemps hhead hhead',
    hi.matches_of_text hi' hf hf' hsingle hparams htemps hbody hbody'⟩

/-- An indented line that ends with its only line feed. -/
def IsLine (s : String) : Prop := ∃ cs, s.toList = ' ' :: (cs ++ ['\n']) ∧ '\n' ∉ cs

private theorem Operation.Legible.isLine (hi : i.operation.Legible m) (hf : f.Spelled)
    (h : m.instructionText? f i = some line) : IsLine line := by
  obtain ⟨head, body, hhead, hbody, rfl⟩ := exists_of_instructionText? h
  have hnone := hi.newline_notMem hf hbody
  rcases eq_of_resultText?_eq_some hhead with ⟨-, rfl⟩ | ⟨t, x, -, hx, rfl⟩
  · exact ⟨' ' :: body.toList, by simp [String.toList_append], by simpa using hnone⟩
  · have hname := (hf.temps x (List.mem_of_getElem? hx)).solid.newline_notMem
    exact ⟨' ' :: '%' :: (x.toList ++ " = ".toList ++ body.toList),
      by simp [String.toList_append], by simpa using ⟨hname, hnone⟩⟩

private theorem lines_inj {ls ls' : List String} {rs ss : List Char} (hls : ∀ l ∈ ls, IsLine l)
    (hls' : ∀ l ∈ ls', IsLine l)
    (h : (String.join ls).toList ++ '\x7d' :: rs = (String.join ls').toList ++ '\x7d' :: ss) :
    ls = ls' ∧ rs = ss := by
  rw [String.toList_join, String.toList_join] at h
  refine flatMap_append_inj (c := ' ') (by decide) ?_ ?_ hls hls' h
  · rintro l ⟨cs, hl, -⟩
    rw [hl]
    rfl
  · rintro l l' rs ss ⟨cs, hl, hcs⟩ ⟨ds, hl', hds⟩ - - h
    rw [hl, hl', List.cons_append, List.cons_append, List.append_assoc, List.append_assoc] at h
    have hstop : ∀ {cs : List Char}, '\n' ∉ cs → ∀ c ∈ cs, c ∉ ['\n'] :=
      fun hnone c hc hmem ↦ hnone (List.mem_singleton.mp hmem ▸ hc)
    obtain ⟨rfl, hrest⟩ := append_inj_of_stops (hstop hcs) (hstop hds) (by simp) (by simp)
      (List.cons.inj h).2
    exact ⟨String.toList_inj.mp (hl.trans hl'.symm), (List.cons.inj hrest).2⟩

end Lines

/-! ## Functions -/

/-- What can be read off the text of a function: no value can be taken for another one, and the
names are words. -/
structure Function.Legible (m : Module) (f : Function) : Prop where
  wellFormed : f.WellFormed m
  unambiguous : f.Unambiguous
  spelled : f.Spelled
  label : ∀ b ∈ f.blocks, b.label = "entry"

/-- Every live function is legible. -/
def Module.Legible (m : Module) : Prop := m.All (Function.Legible m)

/-- The blocks have the same label and matching instructions. -/
def Block.Matches (R : FunctionId → FunctionId → Prop) (b b' : Block) : Prop :=
  b.label = b'.label ∧ List.Forall₂ (Instruction.Matches R) b.instructions b'.instructions

section Functions

variable {m m' : Module} {f f' : Function} {b b' : Block} {lines : List String} {t : String}

theorem Block.WellFormed.legible (hb : b.WellFormed m f) (hm : m.Legible) {i : Instruction}
    (hi : i ∈ b.instructions) : i.operation.Legible m where
  bools := by
    rintro v hv c rfl
    exact hb.bools i hi c hv
  callee := by
    intro h args hcall
    obtain ⟨g, hg, -, -⟩ := hb.calls i hi h args hcall
    exact ⟨g, hg, (hm h g hg).spelled⟩

private theorem Block.WellFormed.isLine (hb : b.WellFormed m f) (hm : m.Legible) (hf : f.Spelled)
    (hlines : b.instructions.mapM (m.instructionText? f) = some lines) :
    ∀ l ∈ lines, IsLine l := by
  intro l hl
  obtain ⟨i, hi, hline⟩ := exists_mem_of_mapM hlines hl
  exact (hb.legible hm hi).isLine hf hline

private theorem Block.WellFormed.result_of_lt (hb : b.WellFormed m f) {k : Nat} {i : Instruction}
    (hk : k < f.temps.length) (hi : b.instructions[k]? = some i) : i.result = some k := by
  refine hb.sets k i ?_
  rw [List.getElem?_dropLast, if_pos (by rw [hb.length_eq]; omega), hi]

private theorem Block.WellFormed.temps_eq (hb : b.WellFormed m f) (hb' : b'.WellFormed m' f')
    (hf : f.Spelled) (hf' : f'.Spelled)
    (hlines : b.instructions.mapM (m.instructionText? f) = some lines)
    (hlines' : b'.instructions.mapM (m'.instructionText? f') = some lines) :
    f.temps = f'.temps := by
  have hheads : List.Forall₂ (fun i i' ↦ f.resultText? i.result = f'.resultText? i'.result)
      b.instructions b'.instructions := by
    refine forall₂_of_mapM_eq hlines hlines' fun i _ i' _ line hline hline' ↦ ?_
    obtain ⟨head, body, hhead, hbody, rfl⟩ := exists_of_instructionText? hline
    obtain ⟨head', body', hhead', hbody', hsame⟩ := exists_of_instructionText? hline'
    obtain ⟨rfl, -⟩ := hf.head_eq hf' hhead hhead' (head?_operationText?_ne hbody)
      (head?_operationText?_ne hbody') ((String.append_left_inj _).mp hsame)
    rw [hhead, hhead']
  have hlength : f.temps.length = f'.temps.length := by
    have hlines := hheads.length_eq
    rw [hb.length_eq, hb'.length_eq] at hlines
    omega
  refine List.ext_getElem hlength fun k hk hk' ↦ ?_
  have hlt : k < b.instructions.length := by rw [hb.length_eq]; omega
  have hlt' : k < b'.instructions.length := by rw [hb'.length_eq]; omega
  have hhead := hheads.get hlt hlt'
  rw [List.get_eq_getElem, List.get_eq_getElem,
    hb.result_of_lt hk (List.getElem?_eq_getElem hlt),
    hb'.result_of_lt hk' (List.getElem?_eq_getElem hlt'), Function.resultText?,
    Function.resultText?, List.getElem?_eq_getElem hk, List.getElem?_eq_getElem hk'] at hhead
  exact (String.append_right_inj _).mp ((String.append_left_inj _).mp (Option.some.inj hhead))

/-- The text of a function from its name on, in which `rs` stands behind the parameters. -/
def Function.headerText (f : Function) (rs : List Char) : List Char :=
  f.globalName.toList ++ '(' :: (f.paramsText.toList ++ ')' :: rs)

theorem Function.paramsText_eq (f : Function) :
    f.paramsText = typedList (f.params.map ("%" ++ ·)) := by
  rw [paramsText, typedList, List.map_map]
  congr 2

theorem Function.Spelled.header_inj (hf : f.Spelled) (hf' : f'.Spelled) {rs ss : List Char}
    (h : f.headerText rs = f'.headerText ss) :
    f.name = f'.name ∧ f.params = f'.params ∧ rs = ss := by
  have hwords : ∀ {g : Function}, g.Spelled → ∀ x ∈ g.params.map ("%" ++ ·), Solid x.toList := by
    intro g hg x hx
    obtain ⟨p, hp, rfl⟩ := List.mem_map.mp hx
    rw [String.toList_append]
    exact solid_append (by decide) (hg.params p hp).solid
  obtain ⟨hname, hrest⟩ := hf.solid_globalName.append_inj hf'.solid_globalName
    (delimited_cons (by decide) _) (delimited_cons (by decide) _) h
  have hlist := (List.cons.inj hrest).2
  rw [paramsText_eq, paramsText_eq] at hlist
  obtain ⟨hparams, hend⟩ := typedList_inj (hwords hf) (hwords hf') hlist
  refine ⟨hf.name_eq hf' (String.toList_inj.mp hname), ?_, hend⟩
  exact List.map_injective_iff.mpr (fun x y ↦ (String.append_right_inj "%").mp) hparams

private theorem toList_of_definitionText?_nil (hblocks : f.blocks = [])
    (ht : m.definitionText? f = some t) :
    t.toList = "declare double ".toList ++ f.headerText ['\n'] := by
  rw [Module.definitionText?, if_neg (by simp [Function.hasBody, hblocks])] at ht
  rw [← Option.some.inj ht, Function.headerText]
  simp [String.toList_append]

private theorem exists_lines_of_definitionText? (hblocks : f.blocks = [b])
    (ht : m.definitionText? f = some t) :
    ∃ lines, b.instructions.mapM (m.instructionText? f) = some lines ∧
      t.toList = "define double ".toList ++ f.headerText (" \x7b\n".toList ++
        (b.label.toList ++ (":\n".toList ++ ((String.join lines).toList ++ ['\x7d', '\n'])))) := by
  rw [Module.definitionText?, if_pos (by simp [Function.hasBody, hblocks]), hblocks] at ht
  obtain ⟨blocks, hb, ht⟩ := Option.bind_eq_some_iff.mp ht
  rw [List.mapM_cons] at hb
  obtain ⟨block, hblock, hb⟩ := Option.bind_eq_some_iff.mp hb
  obtain rfl := Option.some.inj hb
  obtain ⟨lines, hlines, hblock⟩ := Option.bind_eq_some_iff.mp hblock
  refine ⟨lines, hlines, ?_⟩
  rw [← Option.some.inj ht, ← Option.some.inj hblock, Function.headerText]
  simp [String.toList_append, String.toList_join]

private theorem declare_ne_define (rs ss : List Char) :
    "declare double ".toList ++ rs ≠ "define double ".toList ++ ss := by
  intro h
  have hthird : some 'c' = some 'f' := congrArg (fun cs : List Char ↦ cs[2]?) h
  exact absurd hthird (by decide)

private theorem Function.Unambiguous.temps_eq_nil (hf : f.Unambiguous) (hblocks : f.blocks = []) :
    f.temps = [] := by
  have hlength := hf.results.length_eq
  rw [Function.results, hblocks, List.length_range] at hlength
  exact List.length_eq_zero_iff.mp hlength.symm

/-- The blocks of definitions that are written the same match, once the header is read. -/
theorem Block.WellFormed.matches_of_lines (hb : b.WellFormed m f) (hb' : b'.WellFormed m' f')
    (hm : m.Legible) (hm' : m'.Legible) (hf : f.Legible m) (hf' : f'.Legible m')
    (hparams : f.params = f'.params)
    (hlines : b.instructions.mapM (m.instructionText? f) = some lines)
    (hlines' : b'.instructions.mapM (m'.instructionText? f') = some lines) :
    f.temps = f'.temps ∧
      List.Forall₂ (Instruction.Matches (m.Namesakes m')) b.instructions b'.instructions := by
  have htemps := hb.temps_eq hb' hf.spelled hf'.spelled hlines hlines'
  refine ⟨htemps, forall₂_of_mapM_eq hlines hlines' fun i hi i' hi' line hline hline' ↦ ?_⟩
  exact (hb.legible hm hi).instruction_matches (hb'.legible hm' hi') hf.spelled hf'.spelled
    hf.unambiguous hparams htemps hline hline'

/-- Legible functions that are written the same are the same, but for the handles of callees. -/
theorem Function.Legible.eq_of_text (hf : f.Legible m) (hf' : f'.Legible m') (hm : m.Legible)
    (hm' : m'.Legible) (ht : m.definitionText? f = some t) (ht' : m'.definitionText? f' = some t) :
    f.name = f'.name ∧ f.params = f'.params ∧ f.temps = f'.temps ∧
      List.Forall₂ (Block.Matches (m.Namesakes m')) f.blocks f'.blocks := by
  rcases hf.wellFormed with hblocks | ⟨b, hblocks, hb⟩ <;>
    rcases hf'.wellFormed with hblocks' | ⟨b', hblocks', hb'⟩
  · have htext := (toList_of_definitionText?_nil hblocks ht).symm.trans
      (toList_of_definitionText?_nil hblocks' ht')
    obtain ⟨hname, hparams, -⟩ :=
      hf.spelled.header_inj hf'.spelled ((List.append_right_inj _).mp htext)
    refine ⟨hname, hparams, ?_, ?_⟩
    · rw [hf.unambiguous.temps_eq_nil hblocks, hf'.unambiguous.temps_eq_nil hblocks']
    · rw [hblocks, hblocks']
      exact .nil
  · obtain ⟨_, -, htext'⟩ := exists_lines_of_definitionText? hblocks' ht'
    exact absurd ((toList_of_definitionText?_nil hblocks ht).symm.trans htext')
      (declare_ne_define _ _)
  · obtain ⟨_, -, htext⟩ := exists_lines_of_definitionText? hblocks ht
    exact absurd ((toList_of_definitionText?_nil hblocks' ht').symm.trans htext)
      (declare_ne_define _ _)
  · obtain ⟨lines, hlines, htext⟩ := exists_lines_of_definitionText? hblocks ht
    obtain ⟨lines', hlines', htext'⟩ := exists_lines_of_definitionText? hblocks' ht'
    have hlabel : b.label = b'.label := by
      rw [hf.label b (hblocks ▸ List.mem_singleton_self b),
        hf'.label b' (hblocks' ▸ List.mem_singleton_self b')]
    obtain ⟨hname, hparams, hrest⟩ :=
      hf.spelled.header_inj hf'.spelled ((List.append_right_inj _).mp (htext.symm.trans htext'))
    rw [hlabel, List.append_right_inj, List.append_right_inj, List.append_right_inj] at hrest
    obtain ⟨rfl, -⟩ := lines_inj (hb.isLine hm hf.spelled hlines)
      (hb'.isLine hm' hf'.spelled hlines') hrest
    obtain ⟨htemps, hbody⟩ := hb.matches_of_lines hb' hm hm' hf hf' hparams hlines hlines'
    refine ⟨hname, hparams, htemps, ?_⟩
    rw [hblocks, hblocks']
    exact .cons ⟨hlabel, hbody⟩ .nil

/-- Functions that match are written the same. -/
theorem definitionText?_of_matches (hname : f.name = f'.name) (hparams : f.params = f'.params)
    (htemps : f.temps = f'.temps)
    (hblocks : List.Forall₂ (Block.Matches (m.Namesakes m')) f.blocks f'.blocks) :
    m.definitionText? f = m'.definitionText? f' := by
  have hcallee : ∀ {h h'}, m.Namesakes m' h h' → m.calleeText h = m'.calleeText h' := by
    rintro h h' ⟨g, g', hg, hg', hsame⟩
    rw [Module.calleeText_of_find? hg, Module.calleeText_of_find? hg', Function.globalName,
      Function.globalName, hsame]
  refine Module.definitionText?_congr hname hparams htemps (hblocks.imp fun b b' hb ↦ ⟨hb.1, ?_⟩)
  exact hb.2.imp fun i i' hi ↦
    ⟨hi.1, operationText?_of_matches hcallee hparams htemps hi.2⟩

end Functions

end Ssa

end FloatLang
