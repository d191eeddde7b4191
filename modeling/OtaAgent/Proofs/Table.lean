import OtaAgent.Table

set_option autoImplicit false

namespace OtaAgent.Table

variable {α : Type}

def Sorted (t : Table α) : Prop := t.Pairwise (·.1 < ·.1)

instance (t : Table α) : Decidable t.Sorted :=
  inferInstanceAs (Decidable (t.Pairwise fun a b => a.1 < b.1))

theorem lt_of_not_lt_of_ne {a b : String} (notLess : ¬ a < b) (other : a ≠ b) : b < a := by
  rcases String.le_total a b with le | le
  · exact absurd (String.le_antisymm le (String.not_lt.mp notLess)) other
  · exact String.not_le.mp fun ge => other (String.le_antisymm ge le)

theorem mem_insert {key : String} {value : α} {t : Table α} {e : String × α}
    (inside : e ∈ insert key value t) : e = (key, value) ∨ e ∈ t := by
  induction t with
  | nil => exact .inl (List.mem_singleton.mp inside)
  | cons head rest ih =>
    obtain ⟨k, v⟩ := head
    simp only [insert] at inside
    split at inside
    · exact List.mem_cons.mp inside
    · split at inside
      · rcases List.mem_cons.mp inside with same | there
        · exact .inl same
        · exact .inr (List.mem_cons_of_mem _ there)
      · rcases List.mem_cons.mp inside with same | there
        · exact .inr (same ▸ List.mem_cons_self)
        · exact (ih there).imp_right (List.mem_cons_of_mem _)

theorem Sorted.insert {t : Table α} (sorted : t.Sorted) (key : String) (value : α) :
    Sorted (t.insert key value) := by
  induction t with
  | nil => exact List.pairwise_singleton _ _
  | cons head rest ih =>
    obtain ⟨k, v⟩ := head
    obtain ⟨below, ordered⟩ := List.pairwise_cons.mp sorted
    simp only [Table.insert]
    split
    · rename_i less
      refine List.pairwise_cons.mpr ⟨?_, sorted⟩
      intro e inside
      rcases List.mem_cons.mp inside with rfl | there
      · exact less
      · exact String.lt_trans less (below e there)
    · split
      · rename_i same
        subst same
        exact List.pairwise_cons.mpr ⟨below, ordered⟩
      · rename_i notLess other
        refine List.pairwise_cons.mpr ⟨?_, ih ordered⟩
        intro e inside
        rcases mem_insert inside with rfl | there
        · exact lt_of_not_lt_of_ne notLess other
        · exact below e there

/-- Of two values that are inserted at one key, the later one counts. -/
theorem insert_insert (t : Table α) (key : String) (value later : α) :
    insert key later (insert key value t) = insert key later t := by
  induction t with
  | nil => simp [insert]
  | cons head rest ih =>
    obtain ⟨k, v⟩ := head
    simp only [insert]
    split
    · simp [insert]
    · split
      · simp [insert]
      · rename_i notLess other
        rw [insert, if_neg notLess, if_neg other, ih]

/-- A key after all others is put at the end. -/
theorem insert_of_forall_lt {t : Table α} {key : String} (value : α)
    (last : ∀ e ∈ t, e.1 < key) : t.insert key value = t ++ [(key, value)] := by
  induction t with
  | nil => rfl
  | cons head rest ih =>
    obtain ⟨k, v⟩ := head
    have less : k < key := last (k, v) List.mem_cons_self
    have notLess : ¬ key < k := String.lt_asymm less
    have other : key ≠ k := fun same => String.lt_irrefl k (same ▸ less)
    simp only [insert, notLess, other, if_false]
    rw [ih fun e there => last e (List.mem_cons_of_mem _ there), List.cons_append]

theorem sorted_ofList (entries : List (String × α)) : Sorted (ofList entries) := by
  have step (t : Table α) (sorted : t.Sorted) :
      Sorted (entries.foldl (fun t e => t.insert e.1 e.2) t) := by
    induction entries generalizing t with
    | nil => exact sorted
    | cons e entries ih => exact ih _ (sorted.insert e.1 e.2)
  exact step [] List.Pairwise.nil

theorem foldl_insert {t entries : Table α} (sorted : Sorted (t ++ entries)) :
    entries.foldl (fun t e => t.insert e.1 e.2) t = t ++ entries := by
  induction entries generalizing t with
  | nil => simp
  | cons e entries ih =>
    have last : ∀ other ∈ t, other.1 < e.1 := fun other there =>
      (List.pairwise_append.mp sorted).2.2 other there e List.mem_cons_self
    rw [List.foldl_cons, insert_of_forall_lt e.2 last, ih (by simpa using sorted)]
    simp

theorem ofList_eq_self {t : Table α} (sorted : t.Sorted) : ofList t = t :=
  foldl_insert (t := []) sorted

theorem Sorted.map {β : Type} {t : Table α} (sorted : t.Sorted) (f : String × α → β) :
    Sorted (t.map fun e => (e.1, f e)) :=
  List.pairwise_map.mpr sorted

theorem get?_append (t rest : List (String × α)) (key : String) :
    get? (t ++ rest) key = (get? t key).or (get? rest key) := by
  induction t with
  | nil => rfl
  | cons e t ih =>
    simp only [List.cons_append, get?, ih]
    split <;> rfl

/-- Of several entries with one key the last one is found. -/
theorem get?_ofList (entries : List (String × α)) (key : String) :
    get? (ofList entries) key = get? entries.reverse key := by
  have step (t : Table α) : get? (entries.foldl (fun t e => t.insert e.1 e.2) t) key =
      (get? entries.reverse key).or (get? t key) := by
    induction entries generalizing t with
    | nil => rfl
    | cons e entries ih =>
      rw [List.foldl_cons, ih, get?_insert, List.reverse_cons, get?_append, Option.or_assoc]
      simp only [get?]
      split <;> rfl
  rw [ofList, step, get?, Option.or_none]

section Distinct

variable {t t' : Table α} {key : String}

def Distinct (t : Table α) : Prop := t.Pairwise (·.1 ≠ ·.1)

theorem Sorted.distinct (sorted : t.Sorted) : t.Distinct := by
  refine List.Pairwise.imp ?_ sorted
  intro e other less same
  rw [same] at less
  exact String.lt_irrefl _ less

theorem Distinct.of_perm (distinct : t.Distinct) (perm : t.Perm t') : t'.Distinct :=
  perm.pairwise distinct fun different => different.symm

theorem get?_of_mem {value : α} (distinct : t.Distinct) (inside : (key, value) ∈ t) :
    t.get? key = some value := by
  induction t with
  | nil => cases inside
  | cons e rest ih =>
    obtain ⟨k, v⟩ := e
    obtain ⟨others, distinct⟩ := List.pairwise_cons.mp distinct
    rcases List.mem_cons.mp inside with same | inside
    · cases same
      simp [get?]
    · have other : key ≠ k := Ne.symm (others _ inside)
      rw [get?, if_neg other]
      exact ih distinct inside

theorem mem_of_get? {value : α} (found : t.get? key = some value) : (key, value) ∈ t := by
  induction t with
  | nil => cases found
  | cons e rest ih =>
    obtain ⟨k, v⟩ := e
    rw [get?] at found
    split at found
    · rename_i same
      cases found
      exact same ▸ List.mem_cons_self
    · exact List.mem_cons_of_mem _ (ih found)

/-- What is at a key does not depend on the order of the entries. -/
theorem get?_of_perm (distinct : t.Distinct) (perm : t.Perm t') : t.get? key = t'.get? key := by
  have distinct' := distinct.of_perm perm
  cases found : t.get? key with
  | some value => exact (get?_of_mem distinct' (perm.mem_iff.mp (mem_of_get? found))).symm
  | none =>
    cases found' : t'.get? key with
    | none => rfl
    | some value =>
      rw [get?_of_mem distinct (perm.mem_iff.mpr (mem_of_get? found'))] at found
      cases found

/-- An entry that is inserted joins those at other keys. -/
theorem perm_insert (sorted : t.Sorted) (key : String) (value : α) :
    (t.insert key value).Perm ((key, value) :: t.filter (·.1 ≠ key)) := by
  induction t with
  | nil => rfl
  | cons e rest ih =>
    obtain ⟨k, v⟩ := e
    obtain ⟨less, sorted⟩ := List.pairwise_cons.mp sorted
    have others (low : ¬ k < key) : rest.filter (·.1 ≠ key) = rest :=
      List.filter_eq_self.mpr fun e inside => by
        have above := less e inside
        simp only [ne_eq, decide_not, Bool.not_eq_true', decide_eq_false_iff_not]
        rintro rfl
        exact low above
    simp only [insert]
    split
    · rename_i low
      have other : k ≠ key := fun same => String.lt_irrefl key (same ▸ low)
      rw [List.filter_cons_of_pos (by simpa using other), others (String.lt_asymm low)]
    · rename_i notLow
      split
      · rename_i same
        subst same
        rw [List.filter_cons_of_neg (by simp), others (String.lt_irrefl key)]
      · rename_i other
        rw [List.filter_cons_of_pos (by simpa using Ne.symm other)]
        exact ((ih sorted).cons _).trans (.swap _ _ _)

/-- A table of entries with different keys has all of them. -/
theorem perm_ofList {entries : Table α} (distinct : entries.Distinct) :
    (ofList entries).Perm entries := by
  have step {t entries : Table α} (sorted : t.Sorted) (distinct : (t ++ entries).Distinct) :
      (entries.foldl (fun t e => t.insert e.1 e.2) t).Perm (t ++ entries) := by
    induction entries generalizing t with
    | nil => rw [List.append_nil]; rfl
    | cons e entries ih =>
      have others : t.filter (·.1 ≠ e.1) = t := List.filter_eq_self.mpr fun other inside => by
        simpa using (List.pairwise_append.mp distinct).2.2 other inside e List.mem_cons_self
      have joined : (t.insert e.1 e.2).Perm (e :: t) := by
        simpa only [others] using perm_insert sorted e.1 e.2
      have moved : (t ++ e :: entries).Perm (t.insert e.1 e.2 ++ entries) :=
        List.perm_middle.trans (joined.symm.append_right entries)
      exact (ih (sorted.insert e.1 e.2) (distinct.of_perm moved)).trans moved.symm
  exact step (t := []) List.Pairwise.nil distinct

theorem Sorted.eq_of_perm (sorted : t.Sorted) (sorted' : t'.Sorted) (perm : t.Perm t') : t = t' :=
  List.Perm.eq_of_pairwise (fun _ _ _ _ less more => absurd more (String.lt_asymm less))
    sorted sorted' perm

theorem ofList_perm (distinct : t.Distinct) (perm : t.Perm t') : ofList t = ofList t' := by
  have inside := perm_ofList distinct
  have inside' := perm_ofList (distinct.of_perm perm)
  exact (sorted_ofList t).eq_of_perm (sorted_ofList t') (inside.trans (perm.trans inside'.symm))

/-- The entries of some kind are the same in two tables if they are given in any order, with
whatever entries of other kinds. -/
theorem filter_ofList {entries entries' : Table α} (distinct : entries.Distinct)
    (distinct' : entries'.Distinct) (p : String × α → Bool)
    (perm : (entries.filter p).Perm (entries'.filter p)) :
    (ofList entries).filter p = (ofList entries').filter p := by
  have sorted : Sorted ((ofList entries).filter p) := (sorted_ofList entries).filter p
  have sorted' : Sorted ((ofList entries').filter p) := (sorted_ofList entries').filter p
  have inside := (perm_ofList distinct).filter p
  have inside' := (perm_ofList distinct').filter p
  exact sorted.eq_of_perm sorted' (inside.trans (perm.trans inside'.symm))

end Distinct

end OtaAgent.Table
