/-
**Association lists in ascending order of keys.**

Keyed data is kept as a list of entries whose keys ascend strictly, so that a key occurs once and
visiting the entries in order visits the keys in order.  Keys are compared by code points, which is
the order of their UTF-8 bytes.

Main definitions:

* `Entries`, `Entries.Ascending`;
* `Entries.insert` — an entry put in its place, instead of any earlier one with its key;
* `Entries.ofList` — entries in any order, of which the last one with a key counts;
* `Entries.find?` — the entry of a key.

Main results:

* `Entries.ascending_insert`, `Entries.ascending_ofList` — the order is kept;
* `Entries.ofList_of_ascending` — entries in order stay as they are;
* `Entries.insert_insert` — of two entries inserted under one key the second counts;
* `Entries.find?_insert` — inserting changes what is found at one key only;
* `Entries.find?_eq_some_iff` — every entry is found at its key.
-/

set_option autoImplicit false
set_option relaxedAutoImplicit false

namespace TreePath

variable {α β : Type}

/-- A list of entries, each a key and what is kept under it. -/
abbrev Entries (α : Type) := List (String × α)

namespace Entries

/-- The keys ascend strictly. -/
def Ascending (es : Entries α) : Prop := (es.map Prod.fst).Pairwise (· < ·)

/-- What is kept under a key. -/
def find? (es : Entries α) (key : String) : Option α :=
  (List.find? (fun e => e.1 == key) es).map Prod.snd

/-- The entries with one more, put in the place of its key and instead of an earlier one with it. -/
def insert (key : String) (a : α) : Entries α → Entries α
  | [] => [(key, a)]
  | e :: es =>
    if key < e.1 then (key, a) :: e :: es
    else if key = e.1 then (key, a) :: es
    else e :: insert key a es

/-- Entries given in any order; of several with one key the last counts. -/
def ofList (es : List (String × α)) : Entries α :=
  es.foldl (fun acc e => insert e.1 e.2 acc) []

/-! ### What an insertion keeps -/

@[simp] theorem ascending_nil : Ascending ([] : Entries α) := .nil

/-- An entry after an insertion is the new one or was there before. -/
theorem eq_or_mem_of_mem_insert {key : String} {a : α} {es : Entries α} {e : String × α}
    (h : e ∈ insert key a es) : e = (key, a) ∨ e ∈ es := by
  induction es with
  | nil => exact .inl (by simpa [insert] using h)
  | cons x xs ih =>
    simp only [insert] at h
    split at h
    · simpa [or_comm, or_assoc] using h
    · split at h
      · rcases List.mem_cons.1 h with h | h
        · exact .inl h
        · exact .inr (List.mem_cons_of_mem _ h)
      · rcases List.mem_cons.1 h with h | h
        · exact .inr (h ▸ List.mem_cons_self)
        · exact (ih h).imp_right (List.mem_cons_of_mem _)

/-- A key that was there before an insertion is there after it. -/
theorem exists_mem_insert (key : String) (a : α) {es : Entries α} {e : String × α} (h : e ∈ es) :
    ∃ e' ∈ insert key a es, e'.1 = e.1 := by
  induction es with
  | nil => cases h
  | cons x xs ih =>
    simp only [insert]
    split
    · exact ⟨e, List.mem_cons_of_mem _ h, rfl⟩
    · split
      · next heq =>
        rcases List.mem_cons.1 h with rfl | h
        · exact ⟨_, List.mem_cons_self, heq⟩
        · exact ⟨e, List.mem_cons_of_mem _ h, rfl⟩
      · rcases List.mem_cons.1 h with rfl | h
        · exact ⟨_, List.mem_cons_self, rfl⟩
        · obtain ⟨e', he', hkey⟩ := ih h
          exact ⟨e', List.mem_cons_of_mem x he', hkey⟩

/-- Two keys of which neither comes first are one. -/
theorem key_eq_of_not_lt {a b : String} (hab : ¬a < b) (hba : ¬b < a) : a = b :=
  String.le_antisymm (String.not_lt.1 hba) (String.not_lt.1 hab)

/-- Inserting keeps the keys in order. -/
theorem ascending_insert (key : String) (a : α) {es : Entries α} (h : Ascending es) :
    Ascending (insert key a es) := by
  induction es with
  | nil => simp [Ascending, insert]
  | cons x xs ih =>
    simp only [Ascending, List.map_cons, List.pairwise_cons, List.mem_map, forall_exists_index,
      and_imp, forall_apply_eq_imp_iff₂] at h
    simp only [insert]
    split
    · next hlt =>
      simp only [Ascending, List.map_cons, List.pairwise_cons, List.mem_cons, List.mem_map,
        forall_eq_or_imp, forall_exists_index, and_imp, forall_apply_eq_imp_iff₂]
      exact ⟨⟨hlt, fun e he => String.lt_trans hlt (h.1 e he)⟩, h.1, h.2⟩
    · split
      · next heq =>
        simp only [Ascending, List.map_cons, List.pairwise_cons, List.mem_map, forall_exists_index,
          and_imp, forall_apply_eq_imp_iff₂]
        exact ⟨heq ▸ h.1, h.2⟩
      · next hlt hne =>
        simp only [Ascending, List.map_cons, List.pairwise_cons, List.mem_map, forall_exists_index,
          and_imp, forall_apply_eq_imp_iff₂]
        refine ⟨fun e he => ?_, ih h.2⟩
        rcases eq_or_mem_of_mem_insert he with he | he
        · subst he
          exact Decidable.byContradiction fun hgt => hne (key_eq_of_not_lt hlt hgt)
        · exact h.1 e he

/-- Of two entries inserted under one key the second counts. -/
theorem insert_insert (key : String) (a b : α) (es : Entries α) :
    insert key b (insert key a es) = insert key b es := by
  induction es with
  | nil => simp [insert]
  | cons x xs ih =>
    by_cases hlt : key < x.1
    · simp [insert, hlt]
    · by_cases hne : key = x.1
      · simp [insert, ← hne]
      · simp [insert, hlt, hne, ih]

/-- Inserting many entries keeps the keys in order. -/
theorem ascending_foldl_insert (new : List (String × α)) {es : Entries α} (h : Ascending es) :
    Ascending (new.foldl (fun acc e => insert e.1 e.2 acc) es) := by
  induction new generalizing es with
  | nil => exact h
  | cons e new ih => exact ih (ascending_insert e.1 e.2 h)

/-- Entries put together in any order are in order. -/
theorem ascending_ofList (es : List (String × α)) : Ascending (ofList es) :=
  ascending_foldl_insert es ascending_nil

/-- Entries put together are among those given. -/
theorem mem_of_mem_foldl_insert {new : List (String × α)} {es : Entries α} {e : String × α}
    (h : e ∈ new.foldl (fun acc e => insert e.1 e.2 acc) es) : e ∈ new ∨ e ∈ es := by
  induction new generalizing es with
  | nil => exact .inr h
  | cons x new ih =>
    rcases ih h with hnew | hes
    · exact .inl (List.mem_cons_of_mem x hnew)
    · rcases eq_or_mem_of_mem_insert hes with rfl | hes
      · exact .inl List.mem_cons_self
      · exact .inr hes

theorem mem_of_mem_ofList {es : List (String × α)} {e : String × α} (h : e ∈ ofList es) :
    e ∈ es :=
  (mem_of_mem_foldl_insert h).elim id fun h => absurd h List.not_mem_nil

/-- An entry whose key comes after all others is put at the end. -/
theorem insert_of_forall_lt {key : String} (a : α) {es : Entries α} (h : ∀ e ∈ es, e.1 < key) :
    insert key a es = es ++ [(key, a)] := by
  induction es with
  | nil => rfl
  | cons x xs ih =>
    have hx : x.1 < key := h x List.mem_cons_self
    have hlt : ¬key < x.1 := String.lt_asymm hx
    have hne : ¬key = x.1 := fun heq => String.lt_irrefl key (heq ▸ hx)
    rw [insert, if_neg hlt, if_neg hne, ih fun e he => h e (List.mem_cons_of_mem x he)]
    rfl

/-- Entries that are in order stay as they are. -/
theorem foldl_insert_of_ascending (es : List (String × α)) {acc : Entries α}
    (h : Ascending (acc ++ es)) :
    es.foldl (fun acc e => insert e.1 e.2 acc) acc = acc ++ es := by
  induction es generalizing acc with
  | nil => simp
  | cons e es ih =>
    have hlast : ∀ x ∈ acc, x.1 < e.1 := by
      simp only [Ascending, List.map_append, List.map_cons, List.pairwise_append] at h
      exact fun x hx => h.2.2 x.1 (List.mem_map_of_mem hx) e.1 List.mem_cons_self
    rw [List.append_cons] at h ⊢
    rw [List.foldl_cons, insert_of_forall_lt e.2 hlast, ih h]

/-- Entries in order are what is put together of them. -/
theorem ofList_of_ascending {es : Entries α} (h : Ascending es) : ofList es = es :=
  foldl_insert_of_ascending es h

/-! ### What is found -/

@[simp] theorem find?_nil (key : String) : find? ([] : Entries α) key = none := rfl

theorem find?_cons (e : String × α) (es : Entries α) (key : String) :
    find? (e :: es) key = if e.1 = key then some e.2 else find? es key := by
  by_cases h : e.1 = key <;> simp [find?, h]

/-- An inserted entry is found at its key, and nothing changes at any other key. -/
theorem find?_insert (key k : String) (a : α) (es : Entries α) :
    find? (insert key a es) k = if key = k then some a else find? es k := by
  induction es with
  | nil => simp [insert, find?_cons]
  | cons x xs ih =>
    simp only [insert]
    split
    · rw [find?_cons]
    · split
      · next heq =>
        rw [find?_cons, find?_cons]
        by_cases hk : key = k <;> simp [hk, ← heq]
      · next hne =>
        rw [find?_cons, find?_cons, ih]
        by_cases hk : key = k
        · subst hk
          simp [Ne.symm hne]
        · simp [hk]

/-- In ascending order every entry is found at its key. -/
theorem find?_eq_some_iff {es : Entries α} (h : Ascending es) {k : String} {a : α} :
    find? es k = some a ↔ (k, a) ∈ es := by
  induction es with
  | nil => simp
  | cons e es ih =>
      obtain ⟨hhead, htail⟩ := List.pairwise_cons.1 h
      rw [find?_cons, List.mem_cons]
      by_cases hk : e.1 = k
      · have hnot : (k, a) ∉ es := by
          intro hmem
          have hlt := hhead k (List.mem_map_of_mem hmem)
          rw [hk] at hlt
          exact String.lt_irrefl k hlt
        rw [if_pos hk, Option.some.injEq]
        constructor
        · rintro rfl
          exact .inl (Prod.ext hk.symm rfl)
        · rintro (hmem | hmem)
          · rw [← hmem]
          · exact absurd hmem hnot
      · rw [if_neg hk, ih htail]
        constructor
        · exact .inr
        · rintro (hmem | hmem)
          · exact absurd (congrArg Prod.fst hmem).symm hk
          · exact hmem

end Entries

end TreePath
