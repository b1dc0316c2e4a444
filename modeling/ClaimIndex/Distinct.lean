namespace ClaimIndex

variable {α : Type} [DecidableEq α]

def distinct : List α → List α
  | [] => []
  | a :: as => a :: (distinct as).filter (· ≠ a)

@[simp] theorem mem_distinct {a : α} {as : List α} : a ∈ distinct as ↔ a ∈ as := by
  induction as with
  | nil => rfl
  | cons b bs ih => by_cases h : a = b <;> simp [distinct, ih, h]

theorem nodup_distinct (as : List α) : (distinct as).Nodup := by
  induction as with
  | nil => exact .nil
  | cons b bs ih => exact List.nodup_cons.2 ⟨by simp, ih.filter _⟩

theorem distinct_of_nodup {as : List α} (h : as.Nodup) : distinct as = as := by
  induction as with
  | nil => rfl
  | cons b bs ih =>
    obtain ⟨hb, hbs⟩ := List.nodup_cons.1 h
    rw [distinct, ih hbs, List.filter_eq_self.2]
    rintro a ha
    simpa using fun e : a = b => hb (e ▸ ha)

theorem distinct_append (as bs : List α) :
    distinct (as ++ bs) = distinct as ++ (distinct bs).filter (· ∉ as) := by
  induction as with
  | nil => exact (List.filter_eq_self.2 fun _ _ => by simp).symm
  | cons a as ih =>
    rw [List.cons_append, distinct, ih, List.filter_append, List.filter_filter, distinct,
      List.cons_append]
    congr 2
    exact List.filter_congr fun b _ => by simp

theorem distinct_flatMap_distinct {β : Type} (f : β → List α) (bs : List β) :
    distinct (bs.flatMap fun b => distinct (f b)) = distinct (bs.flatMap f) := by
  induction bs with
  | nil => rfl
  | cons b bs ih =>
    rw [List.flatMap_cons, List.flatMap_cons, distinct_append, distinct_append, ih,
      distinct_of_nodup (nodup_distinct (f b))]
    congr 1
    exact List.filter_congr fun a _ => by simp

@[simp] theorem distinct_eq_nil {as : List α} : distinct as = [] ↔ as = [] := by
  cases as <;> simp [distinct]

end ClaimIndex
