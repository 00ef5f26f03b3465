import Mathlib.Data.List.Induction
import Mathlib.Order.WithBot
import RunningTotal.Record
import RunningTotal.Proofs.Decimal

/-! Merging of records. `rank` puts the order of names into numbers: an index has its own, every other
name the greatest. Insertions of different names commute where one of them has its place already
or is an index (`insert_comm`), so inserting into a record before it is merged or after makes no
difference (`merge_insert`), and merging is associative (`merge_merge`). A look-up in records that
are spread over one another finds the value given last (`get?_spread`). -/
set_option autoImplicit false

namespace RunningTotal.Record

variable {α : Type}

/-! ## The rank of a name -/

def rank (name : String) : WithTop ℕ :=
  match index? name with
  | some n => WithTop.some n
  | none => ⊤

theorem precedes_iff {new old : String} : precedes new old = true ↔ rank new < rank old := by
  unfold precedes rank
  cases index? new with
  | none => simp
  | some m =>
    cases index? old with
    | none => simp
    | some n => simp

theorem toList_of_index? {name : String} {n : Nat} (h : index? name = some n) :
    name.toList = decimal n := by
  unfold index? at h
  dsimp only at h
  split at h
  · split at h
    · rename_i hdigits
      rw [← Option.some.inj h, hdigits.1]
    · cases h
  · cases h

theorem eq_of_rank_eq {a b : String} (h : rank a = rank b) (ha : rank a ≠ ⊤) : a = b := by
  unfold rank at h ha
  split at h
  · rename_i m hm
    split at h
    · rename_i n hn
      rw [WithTop.coe_inj.mp h] at hm
      apply String.toList_inj.mp
      rw [toList_of_index? hm, toList_of_index? hn]
    · exact absurd h (WithTop.coe_ne_top)
  · rename_i hnone
    rw [hnone] at ha
    exact absurd rfl ha

/-! ## Insertion -/

theorem insert_cons_self (a : String) (x z : α) (l : Record α) :
    insert a x ((a, z) :: l) = (a, x) :: l := by
  rw [insert, if_pos rfl]

theorem insert_cons_of_lt {a c : String} (h : rank a < rank c) (x z : α) (l : Record α) :
    insert a x ((c, z) :: l) = (a, x) :: (c, z) :: l := by
  have hne : c ≠ a := by
    rintro rfl
    exact lt_irrefl _ h
  rw [insert, if_neg hne, if_pos (precedes_iff.mpr h)]

theorem insert_cons_of_le {a c : String} (hne : c ≠ a) (h : rank c ≤ rank a) (x z : α)
    (l : Record α) : insert a x ((c, z) :: l) = (c, z) :: insert a x l := by
  have hprecedes : ¬ precedes a c = true := fun hlt => not_lt_of_ge h (precedes_iff.mp hlt)
  rw [insert, if_neg hne, if_neg hprecedes]

theorem insert_insert_self (a : String) (x y : α) (l : Record α) :
    insert a x (insert a y l) = insert a x l := by
  induction l with
  | nil => exact insert_cons_self a x y []
  | cons property l ih =>
    obtain ⟨c, z⟩ := property
    by_cases hc : c = a
    · subst hc
      rw [insert_cons_self, insert_cons_self, insert_cons_self]
    · rcases lt_or_ge (rank a) (rank c) with hlt | hle
      · rw [insert_cons_of_lt hlt, insert_cons_of_lt hlt, insert_cons_self]
      · rw [insert_cons_of_le hc hle, insert_cons_of_le hc hle, insert_cons_of_le hc hle, ih]

def names (record : Record α) : List String := record.map Prod.fst

/-- Values may be left out or changed; the names of the others stay, in their order. -/
theorem names_filterMap {β : Type} (f : α → Option β) (record : Record α) :
    (names (record.filterMap fun property => (f property.2).map fun value =>
      (property.1, value))).Sublist (names record) := by
  induction record with
  | nil => exact List.Sublist.refl []
  | cons property rest ih =>
    obtain ⟨name, value⟩ := property
    cases h : f value with
    | none => simpa [names, h] using ih.cons name
    | some given => simpa [names, h] using ih

theorem mem_insert {a : String} {x : α} {l : Record α} {property : String × α}
    (h : property ∈ insert a x l) : property = (a, x) ∨ property ∈ l := by
  induction l with
  | nil => exact .inl (List.mem_singleton.mp h)
  | cons first l ih =>
    unfold insert at h
    split at h
    · exact (List.mem_cons.mp h).imp id (List.mem_cons_of_mem _)
    · split at h
      · exact List.mem_cons.mp h
      · rcases List.mem_cons.mp h with rfl | h
        · exact .inr (List.mem_cons_self ..)
        · exact (ih h).imp id (List.mem_cons_of_mem _)

theorem mem_names_insert_self (a : String) (x : α) (l : Record α) : a ∈ names (insert a x l) := by
  induction l with
  | nil => exact List.mem_singleton.mpr rfl
  | cons first l ih =>
    unfold insert
    split
    · exact List.mem_cons_self ..
    · split
      · exact List.mem_cons_self ..
      · exact List.mem_cons_of_mem _ ih

theorem mem_names_insert {b : String} {l : Record α} (h : b ∈ names l) (a : String) (x : α) :
    b ∈ names (insert a x l) := by
  induction l with
  | nil => cases h
  | cons first l ih =>
    unfold insert
    split
    · rename_i heq
      rw [← heq]
      exact h
    · split
      · exact List.mem_cons_of_mem _ h
      · rcases List.mem_cons.mp h with rfl | h
        · exact List.mem_cons_self ..
        · exact List.mem_cons_of_mem _ (ih h)

/-- Insertions of two names commute if one of them has a place whatever comes before. -/
theorem insert_comm {a b : String} (hab : a ≠ b) {l : Record α} (ha : rank a ≠ ⊤ ∨ a ∈ names l)
    (x y : α) : insert a x (insert b y l) = insert b y (insert a x l) := by
  have hrank (ha : rank a ≠ ⊤) : rank a < rank b ∨ rank b < rank a :=
    lt_or_gt_of_ne fun h => hab (eq_of_rank_eq h ha)
  -- each of the two goes before the first name of the record, takes its place or goes behind it
  induction l with
  | nil =>
    have ha : rank a ≠ ⊤ := ha.resolve_right List.not_mem_nil
    rcases hrank ha with hlt | hlt
    · rw [insert, insert, insert_cons_of_lt hlt, insert_cons_of_le hab hlt.le, insert]
    · rw [insert, insert, insert_cons_of_lt hlt, insert_cons_of_le hab.symm hlt.le, insert]
  | cons property l ih =>
    obtain ⟨c, z⟩ := property
    by_cases hca : c = a
    · subst hca
      rcases lt_or_ge (rank b) (rank c) with hlt | hle
      · rw [insert_cons_of_lt hlt, insert_cons_of_le hab.symm hlt.le, insert_cons_self,
          insert_cons_of_lt hlt]
      · rw [insert_cons_of_le hab hle, insert_cons_self, insert_cons_self,
          insert_cons_of_le hab hle]
    · by_cases hcb : c = b
      · subst hcb
        rcases lt_or_ge (rank a) (rank c) with hlt | hle
        · rw [insert_cons_self, insert_cons_of_lt hlt, insert_cons_of_lt hlt,
            insert_cons_of_le hab hlt.le, insert_cons_self]
        · rw [insert_cons_self, insert_cons_of_le hca hle, insert_cons_of_le hca hle,
            insert_cons_self]
      · rcases lt_or_ge (rank a) (rank c) with hltA | hleA
        · rcases lt_or_ge (rank b) (rank c) with hltB | hleB
          · rcases hrank (ne_top_of_lt hltA) with hlt | hlt
            · rw [insert_cons_of_lt hltB, insert_cons_of_lt hlt, insert_cons_of_lt hltA,
                insert_cons_of_le hab hlt.le, insert_cons_of_lt hltB]
            · rw [insert_cons_of_lt hltB, insert_cons_of_le hab.symm hlt.le,
                insert_cons_of_lt hltA, insert_cons_of_lt hlt]
          · rw [insert_cons_of_le hcb hleB, insert_cons_of_lt hltA, insert_cons_of_lt hltA,
              insert_cons_of_le hab (hltA.le.trans hleB), insert_cons_of_le hcb hleB]
        · rcases lt_or_ge (rank b) (rank c) with hltB | hleB
          · rw [insert_cons_of_lt hltB, insert_cons_of_le hab.symm (hltB.le.trans hleA),
              insert_cons_of_le hca hleA, insert_cons_of_lt hltB]
          · have hrest : rank a ≠ ⊤ ∨ a ∈ names l :=
              ha.imp id fun h => (List.mem_cons.mp h).resolve_left (Ne.symm hca)
            rw [insert_cons_of_le hcb hleB, insert_cons_of_le hca hleA,
              insert_cons_of_le hca hleA, insert_cons_of_le hcb hleB, ih hrest]

/-! ## Order -/

/-- Names are given once, and an index has only lesser indices before it. -/
def Ordered (record : Record α) : Prop :=
  record.Pairwise fun earlier later => earlier.1 ≠ later.1 ∧ rank earlier.1 ≤ rank later.1

theorem ordered_nil : Ordered ([] : Record α) := List.Pairwise.nil

theorem Ordered.insert {record : Record α} (h : Ordered record) (a : String) (x : α) :
    Ordered (insert a x record) := by
  induction record with
  | nil => exact List.pairwise_singleton _ _
  | cons property rest ih =>
    obtain ⟨c, z⟩ := property
    obtain ⟨hfirst, hrest⟩ := List.pairwise_cons.mp h
    by_cases hc : c = a
    · subst hc
      rw [insert_cons_self]
      exact List.pairwise_cons.mpr ⟨hfirst, hrest⟩
    · rcases lt_or_ge (rank a) (rank c) with hlt | hle
      · rw [insert_cons_of_lt hlt]
        refine List.pairwise_cons.mpr ⟨?_, h⟩
        intro later hlater
        rcases List.mem_cons.mp hlater with rfl | hlater
        · exact ⟨Ne.symm hc, hlt.le⟩
        · have hgreater := lt_of_lt_of_le hlt (hfirst later hlater).2
          refine ⟨?_, hgreater.le⟩
          rintro rfl
          exact lt_irrefl _ hgreater
      · rw [insert_cons_of_le hc hle]
        refine List.pairwise_cons.mpr ⟨?_, ih hrest⟩
        intro later hlater
        rcases mem_insert hlater with rfl | hlater
        · exact ⟨hc, hle⟩
        · exact hfirst later hlater

theorem ordered_iff_names {record : Record α} :
    Ordered record ↔ (names record).Pairwise fun a b => a ≠ b ∧ rank a ≤ rank b := by
  rw [names, List.pairwise_map]
  rfl

theorem Ordered.of_sublist {β : Type} {part : Record β} {record : Record α} (h : Ordered record)
    (hnames : (names part).Sublist (names record)) : Ordered part :=
  ordered_iff_names.mpr ((ordered_iff_names.mp h).sublist hnames)

theorem insert_eq_concat {a : String} {record : Record α}
    (h : ∀ p ∈ record, p.1 ≠ a ∧ rank p.1 ≤ rank a) (x : α) :
    Record.insert a x record = record ++ [(a, x)] := by
  induction record with
  | nil => rfl
  | cons property rest ih =>
    obtain ⟨c, z⟩ := property
    obtain ⟨hfirst, hrest⟩ := List.forall_mem_cons.mp h
    rw [insert_cons_of_le hfirst.1 hfirst.2, ih hrest, List.cons_append]

/-! ## Merging -/

theorem merge_cons (lower : Record α) (property : String × α) (upper : Record α) :
    merge lower (property :: upper) = merge (lower.insert property.1 property.2) upper := rfl

theorem merge_concat (lower upper : Record α) (property : String × α) :
    merge lower (upper ++ [property]) =
      (merge lower upper).insert property.1 property.2 := List.foldl_append

theorem Ordered.merge {lower : Record α} (h : Ordered lower) (upper : Record α) :
    Ordered (merge lower upper) := by
  induction upper generalizing lower with
  | nil => exact h
  | cons property upper ih => exact ih (h.insert property.1 property.2)

/-- Names that are given in order keep it. -/
theorem Ordered.ofList_eq {record : Record α} (h : Ordered record) : ofList record = record := by
  induction record using List.reverseRecOn with
  | nil => rfl
  | append_singleton record property ih =>
    obtain ⟨hrecord, -, hlast⟩ := List.pairwise_append.mp h
    have hplace : ∀ p ∈ record, p.1 ≠ property.1 ∧ rank p.1 ≤ rank property.1 :=
      fun p hp => hlast p hp property (List.mem_singleton_self _)
    have hofList : ofList (record ++ [property]) =
        (ofList record).insert property.1 property.2 := merge_concat [] record property
    rw [hofList, ih hrecord, insert_eq_concat hplace]

/-- An insertion with a place whatever comes before may come before all others. -/
theorem insert_merge {a : String} {lower upper : Record α} (hne : ∀ p ∈ upper, a ≠ p.1)
    (ha : rank a ≠ ⊤ ∨ a ∈ names lower) (x : α) :
    (merge lower upper).insert a x = merge (lower.insert a x) upper := by
  induction upper generalizing lower with
  | nil => rfl
  | cons property upper ih =>
    have hplace : rank a ≠ ⊤ ∨ a ∈ names (lower.insert property.1 property.2) :=
      ha.imp id fun h => mem_names_insert h _ _
    rw [merge_cons, ih (fun p hp => hne p (List.mem_cons_of_mem _ hp)) hplace,
      insert_comm (hne property (List.mem_cons_self ..)) ha, ← merge_cons]

theorem merge_insert (lower : Record α) {upper : Record α} (h : Ordered upper) (a : String)
    (x : α) : merge lower (upper.insert a x) = (merge lower upper).insert a x := by
  -- `a` is inserted at its place in `upper`; from there it has to pass all that comes later
  induction upper generalizing lower with
  | nil => rfl
  | cons property upper ih =>
    obtain ⟨c, z⟩ := property
    obtain ⟨hfirst, hrest⟩ := List.pairwise_cons.mp h
    by_cases hc : c = a
    · subst hc
      have hplace := mem_names_insert_self c z lower
      rw [insert_cons_self, merge_cons, merge_cons,
        insert_merge (fun p hp => (hfirst p hp).1) (.inr hplace), insert_insert_self]
    · rcases lt_or_ge (rank a) (rank c) with hlt | hle
      · have hne : ∀ p ∈ (c, z) :: upper, a ≠ p.1 := by
          rintro p hp rfl
          rcases List.mem_cons.mp hp with rfl | hp
          · exact hc rfl
          · exact not_lt_of_ge (hfirst p hp).2 hlt
        rw [insert_cons_of_lt hlt, insert_merge hne (.inl (ne_top_of_lt hlt)), merge_cons]
      · rw [insert_cons_of_le hc hle, merge_cons, merge_cons, ih _ hrest]

theorem merge_merge (lower : Record α) {middle : Record α} (h : Ordered middle)
    (upper : Record α) : merge lower (merge middle upper) = merge (merge lower middle) upper := by
  induction upper using List.reverseRecOn with
  | nil => rfl
  | append_singleton upper property ih =>
    rw [merge_concat, merge_concat, merge_insert lower (h.merge upper), ih]

/-- One record of many, each spread over those before it. -/
def spread (records : List (Record α)) : Record α := records.foldl merge []

theorem spread_concat (records : List (Record α)) (last : Record α) :
    spread (records ++ [last]) = merge (spread records) last := List.foldl_append

theorem ordered_spread (records : List (Record α)) : Ordered (spread records) := by
  induction records using List.reverseRecOn with
  | nil => exact ordered_nil
  | append_singleton records last ih =>
    rw [spread_concat]
    exact ih.merge last

theorem merge_spread (lower : Record α) (records : List (Record α)) :
    merge lower (spread records) = records.foldl merge lower := by
  induction records using List.reverseRecOn with
  | nil => rfl
  | append_singleton records last ih =>
    rw [spread_concat, merge_merge lower (ordered_spread records), ih, List.foldl_append]
    rfl

/-! ## Look-up -/

theorem get?_insert (name other : String) (value : α) (record : Record α) :
    get? (Record.insert name value record) other =
      if other = name then some value else get? record other := by
  split
  · rename_i h
    rw [h, get?_insert_self]
  · rename_i h
    exact get?_insert_of_ne value record h

theorem get?_merge (lower upper : Record α) (name : String) :
    get? (merge lower upper) name = (get? upper.reverse name).or (get? lower name) := by
  induction upper using List.reverseRecOn with
  | nil => rfl
  | append_singleton upper property ih =>
    rw [merge_concat, get?_insert, ih, List.reverse_append, List.reverse_singleton,
      List.singleton_append, get?_cons]
    split <;> rfl

/-- The value that is given last under a name, by whichever of the records. -/
def last? (records : List (Record α)) (name : String) : Option α := get? records.flatten.reverse name

theorem get?_spread (records : List (Record α)) (name : String) :
    get? (spread records) name = last? records name := by
  induction records using List.reverseRecOn with
  | nil => rfl
  | append_singleton records last ih =>
    rw [spread_concat, get?_merge, ih, last?, last?, List.flatten_concat, List.reverse_append]
    exact List.lookup_append.symm

theorem Ordered.nodup {record : Record α} (h : Ordered record) : (names record).Nodup :=
  (ordered_iff_names.mp h).imp And.left

theorem get?_eq_none_iff {record : Record α} {name : String} :
    get? record name = none ↔ name ∉ names record := by
  induction record with
  | nil => simp [names]
  | cons property rest ih =>
    obtain ⟨old, v⟩ := property
    rw [get?_cons]
    split
    · rename_i h
      simp [names, h]
    · rename_i h
      rw [ih]
      simp [names, h]

/-- Where names are given once, a name has the property that a look-up finds and no other. -/
theorem filter_name {record : Record α} (h : (names record).Nodup) (name : String) :
    record.filter (·.1 = name) = ((get? record name).map fun value => (name, value)).toList := by
  induction record with
  | nil => rfl
  | cons property rest ih =>
    obtain ⟨old, v⟩ := property
    obtain ⟨hold, hrest⟩ := List.nodup_cons.mp h
    rw [get?_cons]
    by_cases hname : name = old
    · subst hname
      have hnone : get? rest name = none := get?_eq_none_iff.mpr hold
      rw [if_pos rfl, List.filter_cons_of_pos (by simp), ih hrest, hnone]
      rfl
    · rw [if_neg hname, List.filter_cons_of_neg (by simpa using Ne.symm hname), ih hrest]

theorem mem_iff_get? {record : Record α} (h : (names record).Nodup) {name : String} {value : α} :
    (name, value) ∈ record ↔ get? record name = some value := by
  calc (name, value) ∈ record
      ↔ (name, value) ∈ record.filter (·.1 = name) := by simp
    _ ↔ get? record name = some value := by
        rw [filter_name h]
        cases get? record name <;> simp [eq_comm]

/-! ## The values alone -/

section MapValues

variable {β : Type} (f : α → β)

def mapValues (record : Record α) : Record β :=
  record.map fun property => (property.1, f property.2)

theorem mapValues_cons (name : String) (value : α) (rest : Record α) :
    mapValues f ((name, value) :: rest) = (name, f value) :: mapValues f rest := rfl

theorem get?_mapValues (record : Record α) (name : String) :
    get? (mapValues f record) name = (get? record name).map f := by
  induction record with
  | nil => rfl
  | cons property rest ih =>
    obtain ⟨old, v⟩ := property
    rw [mapValues_cons, get?_cons, get?_cons]
    split
    · rfl
    · exact ih

theorem mapValues_insert (name : String) (value : α) (record : Record α) :
    mapValues f (record.insert name value) = (mapValues f record).insert name (f value) := by
  induction record with
  | nil => rfl
  | cons property rest ih =>
    obtain ⟨old, v⟩ := property
    rw [mapValues_cons, Record.insert, Record.insert, ← ih]
    split
    · rfl
    · split <;> rfl

theorem mapValues_merge (lower upper : Record α) :
    mapValues f (merge lower upper) = merge (mapValues f lower) (mapValues f upper) := by
  induction upper generalizing lower with
  | nil => rfl
  | cons property upper ih =>
    rw [merge_cons, ih, mapValues_insert]
    rfl

end MapValues

end RunningTotal.Record
