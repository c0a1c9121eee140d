import Mathlib.Data.Option.Basic

/-!
# Names and holders

Names lead to holders, several may lead to one, and every holder has one name of
its own. The two maps agree if no name leads nowhere and every own name leads
back; they are inverse if a name leads to its owner and to nobody else. For each
update it is said exactly when it keeps the agreement, or keeps the maps inverse.
-/

namespace PeatBtle.TwoWay

structure Index (κ ν : Type) where
  target : κ → Option ν
  ownName : ν → Option κ

namespace Index

variable {κ ν : Type}

structure Agrees (t : Index κ ν) : Prop where
  held : ∀ name holder, t.target name = some holder → (t.ownName holder).isSome = true
  back : ∀ holder name, t.ownName holder = some name → t.target name = some holder

/-- A name leads to a holder exactly if it is the holder's own. -/
def Inverse (t : Index κ ν) : Prop :=
  ∀ name holder, t.target name = some holder ↔ t.ownName holder = some name

/-- Every name leads to one that has it for its own. -/
def Owned (t : Index κ ν) : Prop :=
  ∀ name holder, t.target name = some holder → t.ownName holder = some name

/-- Nobody but the holder has the name. -/
def Free (t : Index κ ν) (name : κ) (holder : ν) : Prop :=
  ∀ other, t.target name = some other → other = holder

variable [DecidableEq κ] [DecidableEq ν]

/-- The name leads to the holder from now on. -/
def point (t : Index κ ν) (name : κ) (holder : ν) : Index κ ν :=
  { t with target := fun other => if other = name then some holder else t.target other }

/-- The holder takes the name for its own, and gives up the one it had. -/
def rename (t : Index κ ν) (name : κ) (holder : ν) : Index κ ν where
  target := fun other => if other = name then some holder
    else if t.ownName holder = some other then none else t.target other
  ownName := fun other => if other = holder then some name else t.ownName other

/-- The name leads to the holder, who takes it for its own if it has none. -/
def adopt (t : Index κ ν) (name : κ) (holder : ν) : Index κ ν :=
  if (t.ownName holder).isSome then t.point name holder else t.rename name holder

/-- A holder goes, the names that lead to it stay. -/
def drop (t : Index κ ν) (gone : ν) : Index κ ν :=
  { t with ownName := fun holder => if holder = gone then none else t.ownName holder }

/-- Some holders go with their own names. -/
def forget (t : Index κ ν) (gone : ν → Bool) : Index κ ν where
  target := fun name => (t.target name).filter fun holder =>
    !(gone holder && decide (t.ownName holder = some name))
  ownName := fun holder => if gone holder then none else t.ownName holder

section Lookups

variable (t : Index κ ν) (name other : κ) (holder holder' : ν)

omit [DecidableEq ν] in
@[simp] theorem target_point : (t.point name holder).target other =
    if other = name then some holder else t.target other := rfl

omit [DecidableEq ν] in
@[simp] theorem ownName_point : (t.point name holder).ownName = t.ownName := rfl

@[simp] theorem target_rename : (t.rename name holder).target other =
    if other = name then some holder
    else if t.ownName holder = some other then none else t.target other := rfl

@[simp] theorem ownName_rename : (t.rename name holder).ownName holder' =
    if holder' = holder then some name else t.ownName holder' := rfl

omit [DecidableEq κ] in
@[simp] theorem target_drop : (t.drop holder).target = t.target := rfl

omit [DecidableEq κ] in
@[simp] theorem ownName_drop : (t.drop holder).ownName holder' =
    if holder' = holder then none else t.ownName holder' := rfl

@[simp] theorem target_adopt : (t.adopt name holder).target other =
    if other = name then some holder else t.target other := by
  unfold adopt
  split
  · rfl
  · rename_i hnone
    rw [Option.not_isSome_iff_eq_none] at hnone
    rw [target_rename, hnone, if_neg (by simp : ¬ none = some other)]

@[simp] theorem ownName_adopt : (t.adopt name holder).ownName holder' =
    if holder' = holder then some ((t.ownName holder).getD name) else t.ownName holder' := by
  unfold adopt
  split
  · rename_i hsome
    obtain ⟨own, hown⟩ := Option.isSome_iff_exists.mp hsome
    rw [ownName_point, hown, Option.getD_some]
    split
    · rename_i heq
      rw [heq, hown]
    · rfl
  · rename_i hnone
    rw [Option.not_isSome_iff_eq_none] at hnone
    rw [ownName_rename, hnone, Option.getD_none]

end Lookups

variable {t : Index κ ν} {name : κ} {holder : ν}

omit [DecidableEq ν] in
/-- Pointing a name elsewhere is safe if it is nobody else's own. -/
theorem agrees_point (h : t.Agrees) :
    (t.point name holder).Agrees ↔ (t.ownName holder).isSome = true ∧
      ∀ other, t.ownName other = some name → other = holder := by
  constructor
  · intro hafter
    refine ⟨hafter.held name holder (if_pos rfl), fun other hother => ?_⟩
    have hback := hafter.back other name hother
    rw [target_point, if_pos rfl] at hback
    exact (Option.some.inj hback).symm
  · rintro ⟨hheld, hown⟩
    constructor
    · intro name' holder' htarget
      rw [target_point] at htarget
      split at htarget
      · rw [← Option.some.inj htarget]
        exact hheld
      · exact h.held name' holder' htarget
    · intro holder' name' hback
      rw [target_point]
      split
      · rename_i hname
        rw [hown holder' (hname ▸ hback)]
      · exact h.back holder' name' hback

/-- So is taking it. -/
theorem agrees_rename (h : t.Agrees) :
    (t.rename name holder).Agrees ↔ ∀ other, t.ownName other = some name → other = holder := by
  constructor
  · intro hafter other hother
    by_cases hne : other = holder
    · exact hne
    · have hback := hafter.back other name (by rw [ownName_rename, if_neg hne]; exact hother)
      rw [target_rename, if_pos rfl] at hback
      exact (Option.some.inj hback).symm
  · intro hown
    constructor
    · intro name' holder' htarget
      rw [target_rename] at htarget
      rw [ownName_rename]
      by_cases hne : holder' = holder
      · rw [if_pos hne]
        rfl
      · rw [if_neg hne]
        split at htarget
        · exact absurd (Option.some.inj htarget).symm hne
        · split at htarget
          · cases htarget
          · exact h.held name' holder' htarget
    · intro holder' name' hback
      rw [ownName_rename] at hback
      rw [target_rename]
      by_cases hne : holder' = holder
      · rw [if_pos hne] at hback
        rw [if_pos (Option.some.inj hback).symm, hne]
      · rw [if_neg hne] at hback
        have htarget := h.back holder' name' hback
        rw [if_neg, if_neg, htarget]
        · intro hholder
          rw [h.back holder name' hholder] at htarget
          exact hne (Option.some.inj htarget).symm
        · rintro rfl
          exact hne (hown holder' hback)

theorem agrees_adopt (h : t.Agrees) :
    (t.adopt name holder).Agrees ↔ ∀ other, t.ownName other = some name → other = holder := by
  unfold adopt
  split
  · rename_i hheld
    rw [agrees_point h]
    exact and_iff_right hheld
  · exact agrees_rename h

/-- With the old holder gone and the name moved, own names still lead back. -/
theorem back_drop_adopt (h : t.Agrees) {gone : ν} (htarget : t.target name = some gone)
    (hne : gone ≠ holder) {holder' : ν} {name' : κ}
    (hback : ((t.drop gone).adopt name holder).ownName holder' = some name') :
    ((t.drop gone).adopt name holder).target name' = some holder' := by
  rw [ownName_adopt, ownName_drop, if_neg (Ne.symm hne), ownName_drop] at hback
  rw [target_adopt, target_drop]
  by_cases hself : holder' = holder
  · -- the new holder has kept the name it had, or has taken this one
    rw [if_pos hself] at hback
    cases hown : t.ownName holder with
    | none =>
        rw [hown, Option.getD_none] at hback
        rw [if_pos (Option.some.inj hback).symm, hself]
    | some own =>
        rw [hown, Option.getD_some] at hback
        obtain rfl := Option.some.inj hback
        rw [hself]
        split
        · rfl
        · exact h.back holder own hown
  · rw [if_neg hself] at hback
    split at hback
    · cases hback
    · rename_i hkept
      have hown := h.back holder' name' hback
      rw [if_neg, hown]
      rintro rfl
      rw [htarget] at hown
      exact hkept (Option.some.inj hown).symm

/-- A name that moves to another holder, with the old holder gone, must have been the only one
that led there. -/
theorem agrees_drop_adopt (h : t.Agrees) {gone : ν} (htarget : t.target name = some gone)
    (hne : gone ≠ holder) :
    ((t.drop gone).adopt name holder).Agrees ↔
      ∀ other, t.target other = some gone → other = name := by
  constructor
  · intro hafter other hother
    by_contra hname
    have hheld := hafter.held other gone
      (by rw [target_adopt, if_neg hname, target_drop]; exact hother)
    rw [ownName_adopt, if_neg hne, ownName_drop, if_pos rfl] at hheld
    cases hheld
  · intro honly
    refine ⟨fun name' holder' hpointed => ?_, fun _ _ hback => back_drop_adopt h htarget hne hback⟩
    rw [target_adopt, target_drop] at hpointed
    rw [ownName_adopt, ownName_drop]
    split
    · rfl
    · rename_i hother
      split at hpointed
      · exact absurd (Option.some.inj hpointed).symm hother
      · rename_i hname
        rw [ownName_drop, if_neg]
        · exact h.held name' holder' hpointed
        · rintro rfl
          exact hname (honly name' hpointed)

omit [DecidableEq ν] in
/-- A holder that goes must have had no name but its own. -/
theorem agrees_forget (h : t.Agrees) {gone : ν → Bool} :
    (t.forget gone).Agrees ↔ ∀ holder, gone holder = true →
      ∀ name, t.target name = some holder → t.ownName holder = some name := by
  constructor
  · intro hafter holder hgone name htarget
    by_contra hother
    have hheld := hafter.held name holder (by simp [forget, htarget, hother])
    simp [forget, hgone] at hheld
  · intro honly
    constructor
    · intro name holder hafter
      obtain ⟨htarget, hkept⟩ := Option.filter_eq_some_iff.mp hafter
      cases hgone : gone holder with
      | true =>
          rw [hgone, decide_eq_true (honly holder hgone name htarget)] at hkept
          cases hkept
      | false =>
          change (if gone holder = true then none else t.ownName holder).isSome = true
          rw [hgone, if_neg Bool.false_ne_true]
          exact h.held name holder htarget
    · intro holder name hafter
      change (if gone holder = true then none else t.ownName holder) = some name at hafter
      split at hafter
      · cases hafter
      · rename_i hkept
        refine Option.filter_eq_some_iff.mpr ⟨h.back holder name hafter, ?_⟩
        rw [Bool.not_eq_true] at hkept
        rw [hkept]
        rfl

/-! ## One name each -/

/-- The name leads to the holder and is the holder's own from now on, whatever was before. -/
def pair (t : Index κ ν) (name : κ) (holder : ν) : Index κ ν where
  target := fun other => if other = name then some holder else t.target other
  ownName := fun other => if other = holder then some name else t.ownName other

/-- The holder's own name leads nowhere from now on. -/
def release (t : Index κ ν) (holder : ν) : Index κ ν :=
  { t with target := fun name => if t.ownName holder = some name then none else t.target name }

/-- The holder goes with its own name. -/
def remove (t : Index κ ν) (holder : ν) : Index κ ν := (t.release holder).drop holder

theorem inverse_pair (h : t.Inverse) : (t.pair name holder).Inverse ↔
    t.Free name holder ∧ ∀ other, t.ownName holder = some other → other = name := by
  constructor
  · intro hafter
    constructor
    · intro other hother
      by_contra hne
      have hback : (t.pair name holder).ownName other = some name :=
        (if_neg hne).trans ((h name other).mp hother)
      have htarget := (hafter name other).mpr hback
      exact hne (Option.some.inj (htarget.symm.trans (if_pos rfl)))
    · intro other hother
      by_contra hne
      have htarget : (t.pair name holder).target other = some holder :=
        (if_neg hne).trans ((h other holder).mpr hother)
      have hback := (hafter other holder).mp htarget
      exact hne (Option.some.inj (hback.symm.trans (if_pos rfl)))
  · rintro ⟨hfree, hsole⟩ name' holder'
    have hbefore := h name' holder'
    unfold pair
    dsimp only
    grind [Free]

theorem inverse_rename (h : t.Inverse) :
    (t.rename name holder).Inverse ↔ t.Free name holder := by
  constructor
  · intro hafter other hother
    by_contra hne
    have hback : (t.rename name holder).ownName other = some name :=
      (if_neg hne).trans ((h name other).mp hother)
    have htarget := (hafter name other).mpr hback
    exact hne (Option.some.inj (htarget.symm.trans (if_pos rfl)))
  · intro hfree name' holder'
    have hbefore := h name' holder'
    have hown := h name' holder
    unfold rename
    dsimp only
    grind [Free]

omit [DecidableEq ν] in
theorem inverse_release (h : t.Inverse) :
    (t.release holder).Inverse ↔ t.ownName holder = none := by
  constructor
  · intro hafter
    by_contra hsome
    obtain ⟨name, hname⟩ := Option.ne_none_iff_exists'.mp hsome
    have htarget := (hafter name holder).mpr hname
    exact Option.some_ne_none _ (htarget.symm.trans (if_pos hname))
  · intro hnone
    have hsame : t.release holder = t := by
      unfold release
      simp only [hnone, reduceCtorEq, if_false]
    rw [hsame]
    exact h

theorem inverse_remove (h : t.Inverse) : (t.remove holder).Inverse := by
  intro name' holder'
  have hbefore := h name' holder'
  have hown := h name' holder
  unfold remove release drop
  dsimp only
  grind

/-- Nothing leads to a holder that is removed. -/
theorem target_remove_ne (h : t.Inverse) : (t.remove holder).target name ≠ some holder := by
  intro htarget
  have hback := (inverse_remove h name holder).mp htarget
  exact Option.some_ne_none _ (hback.symm.trans (if_pos rfl))

omit [DecidableEq κ] [DecidableEq ν] in
theorem Owned.inverse_iff (h : t.Owned) :
    t.Inverse ↔ ∀ holder name, t.ownName holder = some name → t.target name = some holder :=
  ⟨fun hinv holder name => (hinv name holder).mpr, fun hback name holder =>
    ⟨h name holder, hback holder name⟩⟩

/-- A holder without a name takes one, whoever had it before. -/
theorem Owned.pair (h : t.Owned) (hnew : t.ownName holder = none) : (t.pair name holder).Owned := by
  intro name' holder' htarget
  have hbefore := h name' holder'
  unfold Index.pair at *
  dsimp only at *
  grind

theorem Owned.remove (h : t.Owned) : (t.remove holder).Owned := by
  intro name' holder' htarget
  have hbefore := h name' holder'
  unfold Index.remove release drop at *
  dsimp only at *
  grind

end Index

end PeatBtle.TwoWay
