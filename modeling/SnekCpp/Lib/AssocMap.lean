import Mathlib

/-!
# Maps with unique keys

The two map operations of the standard library that `AList` lacks: a subscript
that inserts a missing key, and a loop that updates every value in place and
may fail on any of them.
-/

namespace SnekCpp.Lib

abbrev AssocMap (κ α : Type*) := AList fun _ : κ ↦ α

namespace AssocMap

variable {κ α ε : Type*} [DecidableEq κ]

/-- The value at `k`, and the map in which `k` has been inserted with
`fallback` if it was missing. -/
def subscript (m : AssocMap κ α) (k : κ) (fallback : α) : α × AssocMap κ α :=
  match m.lookup k with
  | some a => (a, m)
  | none => (fallback, m.insert k fallback)

theorem subscript_of_lookup {m : AssocMap κ α} {k : κ} {a : α} (h : m.lookup k = some a)
    (fallback : α) : m.subscript k fallback = (a, m) := by
  simp [subscript, h]

theorem subscript_of_lookup_none {m : AssocMap κ α} {k : κ} (h : m.lookup k = none)
    (fallback : α) : m.subscript k fallback = (fallback, m.insert k fallback) := by
  simp [subscript, h]

@[simp] theorem lookup_subscript_ne (m : AssocMap κ α) {k k' : κ} (fallback : α) (h : k' ≠ k) :
    (m.subscript k fallback).2.lookup k' = m.lookup k' := by
  unfold subscript
  split
  · rfl
  · exact AList.lookup_insert_ne h

theorem mem_subscript (m : AssocMap κ α) {k k' : κ} (fallback : α) :
    k' ∈ (m.subscript k fallback).2 ↔ k' = k ∨ k' ∈ m := by
  unfold subscript
  split
  · next a h =>
      have hk : k ∈ m := AList.lookup_isSome.mp (by simp [h])
      constructor
      · exact Or.inr
      · rintro (rfl | hmem)
        · exact hk
        · exact hmem
  · exact AList.mem_insert m

theorem lookup_eq_some_of_mem {m : AssocMap κ α} {k : κ} (h : k ∈ m) :
    ∃ a, m.lookup k = some a :=
  Option.isSome_iff_exists.mp (AList.lookup_isSome.mpr h)

theorem mem_of_lookup {m : AssocMap κ α} {k : κ} {a : α} (h : m.lookup k = some a) : k ∈ m :=
  AList.lookup_isSome.mp (by simp [h])

theorem mem_entries_iff (m : AssocMap κ α) (k : κ) (a : α) :
    (⟨k, a⟩ : Sigma fun _ : κ ↦ α) ∈ m.entries ↔ m.lookup k = some a :=
  AList.mem_lookup_iff.symm

theorem lookup_insert_eq (m : AssocMap κ α) (k k' : κ) (a : α) :
    (m.insert k a).lookup k' = if k' = k then some a else m.lookup k' := by
  by_cases h : k' = k
  · subst h
    simp
  · simp [h, AList.lookup_insert_ne h]

theorem lookup_erase_eq (m : AssocMap κ α) (k k' : κ) :
    (m.erase k).lookup k' = if k' = k then none else m.lookup k' := by
  by_cases h : k' = k
  · subst h
    simp
  · simp [h, AList.lookup_erase_ne h]

/-! ## The number of entries -/

omit [DecidableEq κ] in
theorem length_entries_congr {m m' : AssocMap κ α} (h : ∀ k, k ∈ m ↔ k ∈ m') :
    m.entries.length = m'.entries.length := by
  have hperm : m.keys.Perm m'.keys := (List.perm_ext_iff_of_nodup m.nodupKeys m'.nodupKeys).mpr h
  simpa [AList.keys, List.keys] using hperm.length_eq

theorem length_entries_insert {m : AssocMap κ α} {k : κ} (h : k ∉ m) (a : α) :
    (m.insert k a).entries.length = m.entries.length + 1 := by
  have hkeys : (m.insert k a).keys = k :: m.keys := by
    rw [AList.keys_insert, List.erase_of_not_mem h]
  simpa [AList.keys, List.keys] using congrArg List.length hkeys

/-! ## Loops over the values -/

/-- One turn of the loop `for (auto& entry : m) entry.second = f(entry.second)`. -/
def updateAt (f : α → Except ε α) (m : AssocMap κ α) (k : κ) : Except ε (AssocMap κ α) :=
  match m.lookup k with
  | none => .ok m
  | some a => (f a).map (m.insert k)

def update (f : α → Except ε α) (m : AssocMap κ α) : Except ε (AssocMap κ α) :=
  m.keys.foldlM (updateAt f) m

theorem lookup_updateAt_ne {f : α → Except ε α} {m m' : AssocMap κ α} {k k' : κ}
    (h : updateAt f m k = .ok m') (hne : k' ≠ k) : m'.lookup k' = m.lookup k' := by
  unfold updateAt at h
  split at h
  · cases h
    rfl
  · next a _ =>
      cases hf : f a with
      | error e => simp [hf, Except.map] at h
      | ok b =>
          have hm' : m' = m.insert k b := by simpa [hf, Except.map] using h.symm
          rw [hm', AList.lookup_insert_ne hne]

/-- The loop over the keys `ks` replaces each value it meets by its image. -/
theorem lookup_foldlM_updateAt {f : α → Except ε α} {ks : List κ} (hnodup : ks.Nodup)
    {m m' : AssocMap κ α} (h : ks.foldlM (updateAt f) m = .ok m') (k : κ) :
    (k ∉ ks → m'.lookup k = m.lookup k) ∧
      (k ∈ ks → ∀ a, m.lookup k = some a → ∃ b, f a = .ok b ∧ m'.lookup k = some b) := by
  induction ks generalizing m with
  | nil =>
      cases h
      simp
  | cons key ks ih =>
      obtain ⟨hkey, hrest⟩ := List.nodup_cons.mp hnodup
      cases hstep : updateAt f m key with
      | error e => simp [hstep, bind, Except.bind] at h
      | ok mid =>
          have htail : ks.foldlM (updateAt f) mid = .ok m' := by
            simpa [hstep, bind, Except.bind] using h
          obtain ⟨hout, hin⟩ := ih hrest htail
          refine ⟨fun hk ↦ ?_, fun hk a ha ↦ ?_⟩
          · rw [List.mem_cons, not_or] at hk
            rw [hout hk.2, lookup_updateAt_ne hstep hk.1]
          · by_cases heq : k = key
            · subst heq
              simp only [updateAt, ha] at hstep
              cases hf : f a with
              | error e => simp [hf, Except.map] at hstep
              | ok b =>
                  have hmid : mid = m.insert k b := by simpa [hf, Except.map] using hstep.symm
                  exact ⟨b, rfl, by rw [hout hkey, hmid, AList.lookup_insert]⟩
            · have hmem : k ∈ ks := (List.mem_cons.mp hk).resolve_left heq
              exact hin hmem a (by rw [lookup_updateAt_ne hstep heq]; exact ha)

theorem lookup_update {f : α → Except ε α} {m m' : AssocMap κ α} (h : m.update f = .ok m')
    {k : κ} {a : α} (ha : m.lookup k = some a) : ∃ b, f a = .ok b ∧ m'.lookup k = some b :=
  (lookup_foldlM_updateAt m.nodupKeys h k).2 (mem_of_lookup ha) a ha

theorem lookup_update_none {f : α → Except ε α} {m m' : AssocMap κ α} (h : m.update f = .ok m')
    {k : κ} (hk : m.lookup k = none) : m'.lookup k = none := by
  have hmem : k ∉ m.keys := AList.lookup_eq_none.mp hk
  rw [(lookup_foldlM_updateAt m.nodupKeys h k).1 hmem, hk]

/-- A value of the updated map comes from the value at the same key. -/
theorem exists_of_lookup_update {f : α → Except ε α} {m m' : AssocMap κ α}
    (h : m.update f = .ok m') {k : κ} {b : α} (hb : m'.lookup k = some b) :
    ∃ a, m.lookup k = some a ∧ f a = .ok b := by
  cases ha : m.lookup k with
  | none => simp [lookup_update_none h ha] at hb
  | some a =>
      obtain ⟨b', hf, hb'⟩ := lookup_update h ha
      rw [hb, Option.some.injEq] at hb'
      exact ⟨a, rfl, hb' ▸ hf⟩

theorem mem_update {f : α → Except ε α} {m m' : AssocMap κ α} (h : m.update f = .ok m') (k : κ) :
    k ∈ m' ↔ k ∈ m := by
  constructor
  · intro hk
    obtain ⟨b, hb⟩ := lookup_eq_some_of_mem hk
    obtain ⟨a, ha, -⟩ := exists_of_lookup_update h hb
    exact mem_of_lookup ha
  · intro hk
    obtain ⟨a, ha⟩ := lookup_eq_some_of_mem hk
    obtain ⟨b, -, hb⟩ := lookup_update h ha
    exact mem_of_lookup hb

/-- The loop fails on no value that `f` accepts. -/
theorem update_ok {f : α → Except ε α} {m : AssocMap κ α}
    (h : ∀ k a, m.lookup k = some a → ∃ b, f a = .ok b) : ∃ m', m.update f = .ok m' := by
  suffices hloop : ∀ ks : List κ, ks.Nodup → ∀ m : AssocMap κ α,
      (∀ k ∈ ks, ∀ a, m.lookup k = some a → ∃ b, f a = .ok b) →
        ∃ m', ks.foldlM (updateAt f) m = .ok m' from
    hloop m.keys m.nodupKeys m fun k _ a ha ↦ h k a ha
  intro ks
  induction ks with
  | nil => exact fun _ m _ ↦ ⟨m, rfl⟩
  | cons key ks ih =>
      intro hnodup m hall
      obtain ⟨hkey, hrest⟩ := List.nodup_cons.mp hnodup
      have hmid : ∃ mid, updateAt f m key = .ok mid := by
        cases hlookup : m.lookup key with
        | none => exact ⟨m, by simp [updateAt, hlookup]⟩
        | some a =>
            obtain ⟨b, hb⟩ := hall key (by simp) a hlookup
            exact ⟨m.insert key b, by simp [updateAt, hlookup, hb, Except.map]⟩
      obtain ⟨mid, hmid⟩ := hmid
      obtain ⟨m', hm'⟩ := ih hrest mid fun k hk a ha ↦ by
        have hne : k ≠ key := fun heq ↦ hkey (heq ▸ hk)
        exact hall k (List.mem_cons_of_mem _ hk) a (by rw [← lookup_updateAt_ne hmid hne]; exact ha)
      exact ⟨m', by simpa [hmid, bind, Except.bind] using hm'⟩

/-! ## Properties of all values -/

def All (P : α → Prop) (m : AssocMap κ α) : Prop := ∀ k a, m.lookup k = some a → P a

namespace All

variable {P : α → Prop} {m m' : AssocMap κ α}

theorem empty : All P (∅ : AssocMap κ α) := fun _ _ h ↦ by cases h

theorem insert (h : All P m) (k : κ) {a : α} (ha : P a) : All P (m.insert k a) := by
  intro key b hb
  rw [lookup_insert_eq] at hb
  split at hb
  · cases hb
    exact ha
  · exact h key b hb

theorem erase (h : All P m) (k : κ) : All P (m.erase k) := by
  intro key b hb
  rw [lookup_erase_eq] at hb
  split at hb
  · cases hb
  · exact h key b hb

/-- The value that `operator []` finds or inserts, and the map after it. -/
theorem subscript (h : All P m) (k : κ) {fallback : α} (hfallback : P fallback) :
    P (m.subscript k fallback).1 ∧ All P (m.subscript k fallback).2 := by
  cases hlookup : m.lookup k with
  | some a =>
      rw [subscript_of_lookup hlookup]
      exact ⟨h k a hlookup, h⟩
  | none =>
      rw [subscript_of_lookup_none hlookup]
      exact ⟨hfallback, h.insert k hfallback⟩

theorem update {f : α → Except ε α} (h : All P m) (hf : ∀ a b, P a → f a = .ok b → P b)
    (hupdate : m.update f = .ok m') : All P m' := by
  intro key b hb
  obtain ⟨a, ha, hab⟩ := exists_of_lookup_update hupdate hb
  exact hf a b (h key a ha) hab

end All

/-! ## What stays the same of the values -/

/-- No key is lost, and `f` of its value stays the same. -/
def Keeps {β : Type*} (f : α → β) (m m' : AssocMap κ α) : Prop :=
  ∀ k b, (m.lookup k).map f = some b → (m'.lookup k).map f = some b

namespace Keeps

variable {β : Type*} {f : α → β} {m m' m'' : AssocMap κ α}

theorem refl (m : AssocMap κ α) : Keeps f m m := fun _ _ h ↦ h

theorem trans (h : Keeps f m m') (h' : Keeps f m' m'') : Keeps f m m'' :=
  fun k b hb ↦ h' k b (h k b hb)

theorem subscript (m : AssocMap κ α) (k : κ) (fallback : α) :
    Keeps f m (m.subscript k fallback).2 := by
  intro key b hb
  cases hlookup : m.lookup k with
  | some a => rwa [subscript_of_lookup hlookup]
  | none =>
      have hne : key ≠ k := by
        rintro rfl
        rw [hlookup] at hb
        cases hb
      rwa [lookup_subscript_ne m fallback hne]

theorem insert {k : κ} {a : α} (ha : ∀ old, m.lookup k = some old → f a = f old) :
    Keeps f m (m.insert k a) := by
  intro key b hb
  rw [lookup_insert_eq]
  split
  · next heq =>
      subst heq
      obtain ⟨old, hold, rfl⟩ := Option.map_eq_some_iff.mp hb
      rw [Option.map_some, ha old hold]
  · exact hb

/-- The value that `operator []` finds or inserts is replaced. -/
theorem insert_subscript {k : κ} {fallback a : α} {m' : AssocMap κ α} {old : α}
    (h : m.subscript k fallback = (old, m')) (ha : f a = f old) : Keeps f m (m'.insert k a) := by
  have hold := @subscript _ _ _ _ f m k fallback
  rw [h] at hold
  apply hold.trans
  apply insert
  intro found hfound
  have hsame : found = old := by
    cases hlookup : m.lookup k with
    | some first =>
        rw [subscript_of_lookup hlookup, Prod.mk.injEq] at h
        rw [← h.2, hlookup, Option.some.injEq] at hfound
        rw [← hfound, h.1]
    | none =>
        rw [subscript_of_lookup_none hlookup, Prod.mk.injEq] at h
        rw [← h.2, AList.lookup_insert, Option.some.injEq] at hfound
        rw [← hfound, h.1]
  rw [ha, hsame]

theorem update {g : α → Except ε α} (hg : ∀ a b, g a = .ok b → f b = f a)
    (h : m.update g = .ok m') : Keeps f m m' := by
  intro k b hb
  obtain ⟨a, ha, rfl⟩ := Option.map_eq_some_iff.mp hb
  obtain ⟨a', ha', hlookup⟩ := lookup_update h ha
  rw [hlookup, Option.map_some, hg a a' ha']

end Keeps

end AssocMap

end SnekCpp.Lib
