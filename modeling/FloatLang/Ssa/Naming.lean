import FloatLang.Ssa.Basic

/-!
# Local names

Parameters and temporaries share one namespace in each function. A name that is already taken gets
the first number behind it, counting from one, that makes it free.

Among as many candidates as there are taken names one is free, because the bare name is among the
taken ones; so the search is over a list of that length.
-/

namespace FloatLang.Ssa

/-- The name `base`, or the first of `base1`, `base2`, … that is not taken. -/
def freshName (taken : List String) (base : String) : String :=
  if base ∈ taken then
    ((List.range taken.length).findSome? fun n ↦
      let candidate := base ++ toString (n + 1)
      if candidate ∈ taken then none else some candidate).getD base
  else base

theorem freshName_of_notMem {taken : List String} {base : String} (h : base ∉ taken) :
    freshName taken base = base := by
  simp [freshName, h]

/-- Makes each parameter different from the ones before it, from left to right. -/
def freshParams (params : List String) : List String :=
  params.foldl (fun named p ↦ named ++ [freshName named p]) []

namespace Function

/-- The names that a new temporary must differ from. -/
def localNames (f : Function) : List String := f.params ++ f.temps

/-- The names that parameter `i` must differ from when it is given another name. -/
def namesBeside (f : Function) (i : Nat) : List String := f.params.eraseIdx i ++ f.temps

/-- Gives parameter `i`, if there is one, the name `base` or one made from it. -/
def nameParam (f : Function) (i : Nat) (base : String) : Function :=
  { f with params := f.params.set i (freshName (f.namesBeside i) base) }

/-- Adds a temporary whose name is made from `base`. -/
def addTemp (f : Function) (base : String) : Function :=
  { f with temps := f.temps ++ [freshName f.localNames base] }

@[simp] theorem length_params_nameParam (f : Function) (i : Nat) (base : String) :
    (f.nameParam i base).params.length = f.params.length := by
  simp [nameParam]

@[simp] theorem length_temps_addTemp (f : Function) (base : String) :
    (f.addTemp base).temps.length = f.temps.length + 1 := by
  simp [addTemp]

end Function

end FloatLang.Ssa
