import Mathlib.Logic.Relation
import Mathlib.Data.List.FinRange

/-! # The closure of a finite relation -/

namespace Lib

structure Grid (n : Nat) where
  rows : Vector (Vector Bool n) n

namespace Grid

variable {n : Nat}

def blank (n : Nat) : Grid n := ⟨.replicate n (.replicate n false)⟩

def get (r : Grid n) (i j : Fin n) : Bool := r.rows[i][j]

def set (r : Grid n) (i j : Fin n) (b : Bool) : Grid n := ⟨r.rows.set i (r.rows[i].set j b)⟩

/-- Add the row of `k` to the row of `i`. -/
def addRow (r : Grid n) (i k : Fin n) : Grid n :=
  (List.finRange n).foldl (fun r j => r.set i j (r.get i j || r.get k j)) r

/-- Every row that reaches `k` reaches what `k` reaches. -/
def addPivot (r : Grid n) (k : Fin n) : Grid n :=
  (List.finRange n).foldl (fun r i => if r.get i k then r.addRow i k else r) r

def close (r : Grid n) : Grid n := (List.finRange n).foldl addPivot r

@[simp] theorem get_blank (i j : Fin n) : (blank n).get i j = false := by
  simp [blank, get]

theorem get_set (r : Grid n) (i j a c : Fin n) (b : Bool) :
    (r.set i j b).get a c = if a = i ∧ c = j then b else r.get a c := by
  unfold get set
  by_cases ha : a = i
  · subst ha
    by_cases hc : c = j
    · subst hc
      simp
    · have hne : (j : Nat) ≠ c := fun h => hc (Fin.ext h.symm)
      simp [hc, hne]
  · have hne : (i : Nat) ≠ a := fun h => ha (Fin.ext h.symm)
    simp [ha, hne]

theorem get_addColumns (r : Grid n) (i k a c : Fin n) (js : List (Fin n)) :
    (js.foldl (fun r j => r.set i j (r.get i j || r.get k j)) r).get a c =
      if a = i ∧ c ∈ js then r.get i c || r.get k c else r.get a c := by
  induction js generalizing r with
  | nil => simp
  | cons j js ih =>
    rw [List.foldl_cons, ih]
    simp only [get_set, List.mem_cons]
    by_cases ha : a = i <;> by_cases hc : c = j <;> by_cases hk : k = i <;>
      by_cases hjs : c ∈ js <;> simp_all

theorem get_addRow (r : Grid n) (i k a c : Fin n) :
    (r.addRow i k).get a c = if a = i then r.get i c || r.get k c else r.get a c := by
  rw [addRow, get_addColumns]
  simp

theorem get_addRows (r : Grid n) (k a c : Fin n) (is : List (Fin n)) :
    (is.foldl (fun r i => if r.get i k then r.addRow i k else r) r).get a c =
      if a ∈ is then r.get a c || (r.get a k && r.get k c) else r.get a c := by
  induction is generalizing r with
  | nil => simp
  | cons i is ih =>
    rw [List.foldl_cons, ih]
    by_cases hi : r.get i k = true
    · rw [if_pos hi]
      simp only [get_addRow, List.mem_cons]
      by_cases ha : a = i <;> by_cases hk : k = i <;> by_cases his : a ∈ is <;> simp_all
    · rw [if_neg hi]
      by_cases ha : a = i <;> by_cases his : a ∈ is <;> simp_all

theorem get_addPivot (r : Grid n) (k a c : Fin n) :
    (r.addPivot k).get a c = (r.get a c || (r.get a k && r.get k c)) := by
  rw [addPivot, get_addRows, if_pos (List.mem_finRange a)]

def Rel (r : Grid n) (i j : Fin n) : Prop := r.get i j = true

theorem rel_addPivot {r : Grid n} {k a c : Fin n} :
    (r.addPivot k).Rel a c ↔ r.Rel a c ∨ (r.Rel a k ∧ r.Rel k c) := by
  rw [Rel, get_addPivot, Bool.or_eq_true, Bool.and_eq_true]
  rfl

/-- Routes through `k` are there already. -/
def Closed (r : Grid n) (k : Fin n) : Prop := ∀ a c, r.Rel a k → r.Rel k c → r.Rel a c

theorem closed_addPivot_self (r : Grid n) (k : Fin n) : (r.addPivot k).Closed k := by
  intro a c ha hc
  rw [rel_addPivot] at ha hc ⊢
  have hak : r.Rel a k := ha.elim id And.left
  have hkc : r.Rel k c := hc.elim id And.right
  exact .inr ⟨hak, hkc⟩

theorem Closed.addPivot {r : Grid n} {p : Fin n} (h : r.Closed p) (k : Fin n) :
    (r.addPivot k).Closed p := by
  intro a c ha hc
  rw [rel_addPivot] at ha hc ⊢
  rcases ha with hap | ⟨hak, hkp⟩
  · rcases hc with hpc | ⟨hpk, hkc⟩
    · exact .inl (h a c hap hpc)
    · exact .inr ⟨h a k hap hpk, hkc⟩
  · rcases hc with hpc | ⟨-, hkc⟩
    · exact .inr ⟨hak, h k c hkp hpc⟩
    · exact .inr ⟨hak, hkc⟩

theorem closed_foldl {ks : List (Fin n)} {r : Grid n} {p : Fin n} (h : p ∈ ks ∨ r.Closed p) :
    (ks.foldl Grid.addPivot r).Closed p := by
  induction ks generalizing r with
  | nil => exact h.resolve_left List.not_mem_nil
  | cons k ks ih =>
    rw [List.foldl_cons]
    apply ih
    rcases h with hmem | hclosed
    · rcases List.mem_cons.mp hmem with rfl | hmem
      · exact .inr (closed_addPivot_self r p)
      · exact .inl hmem
    · exact .inr (hclosed.addPivot k)

theorem rel_foldl_of_rel {ks : List (Fin n)} {r : Grid n} {a c : Fin n} (h : r.Rel a c) :
    (ks.foldl Grid.addPivot r).Rel a c := by
  induction ks generalizing r with
  | nil => exact h
  | cons k ks ih => exact ih (rel_addPivot.mpr (.inl h))

theorem reaches_of_rel_foldl {ks : List (Fin n)} {r s : Grid n} {a c : Fin n}
    (hr : ∀ a c, r.Rel a c → Relation.ReflTransGen s.Rel a c)
    (h : (ks.foldl Grid.addPivot r).Rel a c) : Relation.ReflTransGen s.Rel a c := by
  induction ks generalizing r with
  | nil => exact hr a c h
  | cons k ks ih =>
    refine ih (fun a c hac => ?_) h
    rcases rel_addPivot.mp hac with hac | ⟨hak, hkc⟩
    · exact hr a c hac
    · exact (hr a k hak).trans (hr k c hkc)

/-- **The closure.**  From a reflexive relation the loops compute reachability. -/
theorem rel_close {r : Grid n} (hrefl : ∀ i, r.Rel i i) {a c : Fin n} :
    r.close.Rel a c ↔ Relation.ReflTransGen r.Rel a c := by
  constructor
  · exact reaches_of_rel_foldl fun a c hac => .single hac
  · intro h
    induction h with
    | refl => exact rel_foldl_of_rel (hrefl a)
    | tail _ hbc ih =>
      exact closed_foldl (.inl (List.mem_finRange _)) _ _ ih (rel_foldl_of_rel hbc)

end Grid

end Lib
