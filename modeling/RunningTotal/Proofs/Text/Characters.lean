import RunningTotal.Text.Cluster
import RunningTotal.Text.Units

/-! Characters of a text against its code points and its 16-bit units. In printable ASCII every
code point is a character of its own (`clusters_of_printable`), but a mark is never parted from
the one before it (`exists_mem_clusters_mark`); and characters never outnumber units
(`length_characters_le`). -/
set_option autoImplicit false

namespace RunningTotal

/-! ## Characters of one code point -/

def singles (text : List Char) : List Cluster := text.map fun c => [c]

@[simp] theorem singles_nil : singles [] = [] := rfl

@[simp] theorem singles_cons (c : Char) (text : List Char) :
    singles (c :: text) = [c] :: singles text := rfl

@[simp] theorem singles_append (front back : List Char) :
    singles (front ++ back) = singles front ++ singles back := List.map_append

@[simp] theorem length_singles (text : List Char) : (singles text).length = text.length :=
  List.length_map _

@[simp] theorem flatten_singles (text : List Char) : (singles text).flatten = text := by
  induction text with
  | nil => rfl
  | cons c text ih => rw [singles_cons, List.flatten_cons, ih, List.singleton_append]

theorem toList_of_characters {input : String} {text : List Char}
    (h : characters input = singles text) : input.toList = text := by
  rw [← flatten_clusters input.toList, ← characters, h, flatten_singles]

theorem clusters_append_of_printable {front : List Char} {d : Char}
    (h : ∀ c ∈ front, 0x20 ≤ c.toNat ∧ c.toNat < 0x7F) (hd : 0x20 ≤ d.toNat ∧ d.toNat < 0x7F)
    (rest : List Char) : clusters (front ++ d :: rest) = singles front ++ clusters (d :: rest) := by
  induction front with
  | nil => rfl
  | cons c front ih =>
    have hc := h c (List.mem_cons_self ..)
    have hfront := ih fun e he => h e (List.mem_cons_of_mem c he)
    cases front with
    | nil =>
      exact clusters_cons_cons_of_other rest (BreakClass.ofChar_printable hc.1 hc.2)
        (BreakClass.ofChar_printable hd.1 hd.2)
    | cons e front =>
      have he := h e (List.mem_cons_of_mem c (List.mem_cons_self ..))
      rw [List.cons_append] at hfront
      rw [List.cons_append, List.cons_append,
        clusters_cons_cons_of_other _ (BreakClass.ofChar_printable hc.1 hc.2)
          (BreakClass.ofChar_printable he.1 he.2), hfront]
      rfl

theorem clusters_of_printable {text : List Char}
    (h : ∀ c ∈ text, 0x20 ≤ c.toNat ∧ c.toNat < 0x7F) : clusters text = singles text := by
  rcases List.eq_nil_or_concat text with rfl | ⟨front, d, rfl⟩
  · rfl
  · rw [List.concat_eq_append] at h ⊢
    obtain ⟨hfront, hd⟩ := List.forall_mem_append.mp h
    rw [clusters_append_of_printable hfront (hd d (List.mem_singleton_self d)), singles_append]
    rfl

/-! ## Marks -/

/-- Marks and joiners belong to the character before them, whatever it is. -/
def BreakClass.continues : BreakClass → Bool
  | .extend | .linker | .spacing | .joiner | .nonJoiner => true
  | _ => false

theorem Tail.joins_of_continues {t : Tail} (h : t.last = .other) {k : BreakClass}
    (hk : k.continues = true) : t.joins k = true := by
  cases k <;> simp_all [BreakClass.continues, joins]

example : (BreakClass.ofChar '\u0301').continues = true := by decide +kernel

theorem exists_clustersFrom_eq (rest : List Char) (tail : Tail) (current : Cluster) :
    ∃ more back, clustersFrom tail current [] rest = (current.reverse ++ more) :: back := by
  induction rest generalizing tail current with
  | nil => exact ⟨[], [], by simp [clustersFrom]⟩
  | cons c rest ih =>
    rw [clustersFrom_cons]
    split
    · obtain ⟨more, back, heq⟩ := ih (tail.push (BreakClass.ofChar c)) (c :: current)
      exact ⟨c :: more, back, by rw [heq, List.reverse_cons, List.append_assoc]; rfl⟩
    · rw [clustersFrom_done]
      exact ⟨[], clustersFrom (Tail.start (BreakClass.ofChar c)) [c] [] rest, by simp⟩

section

variable {d m : Char} (hd : BreakClass.ofChar d = .other)
  (hm : (BreakClass.ofChar m).continues = true) (rest : List Char)

include hm in
theorem exists_clustersFrom_mark {tail : Tail} (htail : tail.last = .other) (current : Cluster) :
    ∃ more back, clustersFrom tail (d :: current) [] (m :: rest) =
      (current.reverse ++ d :: m :: more) :: back := by
  obtain ⟨more, back, heq⟩ := exists_clustersFrom_eq rest (tail.push (BreakClass.ofChar m))
    (m :: d :: current)
  refine ⟨more, back, ?_⟩
  rw [clustersFrom_cons, if_pos (Tail.joins_of_continues htail hm), heq]
  simp

include hd hm

theorem exists_clusters_mark :
    ∃ more back, clusters (d :: m :: rest) = (d :: m :: more) :: back := by
  rw [clusters, hd]
  exact exists_clustersFrom_mark hm rest rfl []

theorem exists_mem_clustersFrom_mark (front : List Char) (tail : Tail) (current : Cluster) :
    ∃ c ∈ clustersFrom tail current [] (front ++ d :: m :: rest), [d, m] <:+: c := by
  have joined {tail : Tail} (htail : tail.last = .other) (current : Cluster) :
      ∃ c ∈ clustersFrom tail (d :: current) [] (m :: rest), [d, m] <:+: c := by
    obtain ⟨more, back, heq⟩ := exists_clustersFrom_mark hm rest htail current
    rw [heq]
    exact ⟨_, List.mem_cons_self .., current.reverse, more, by simp⟩
  -- whatever the cluster before it, the next character either goes on with it or starts anew
  induction front generalizing tail current with
  | nil =>
    rw [List.nil_append, clustersFrom_cons, hd]
    split
    · exact joined rfl current
    · obtain ⟨c, hc, hmark⟩ := joined (show (Tail.start .other).last = .other from rfl) []
      rw [clustersFrom_done]
      exact ⟨c, List.mem_append_right _ hc, hmark⟩
  | cons e front ih =>
    rw [List.cons_append, clustersFrom_cons]
    split
    · exact ih _ _
    · obtain ⟨c, hc, hmark⟩ := ih (Tail.start (BreakClass.ofChar e)) [e]
      rw [clustersFrom_done]
      exact ⟨c, List.mem_append_right _ hc, hmark⟩

theorem exists_mem_clusters_mark (front : List Char) :
    ∃ c ∈ clusters (front ++ d :: m :: rest), [d, m] <:+: c := by
  cases front with
  | nil =>
    obtain ⟨more, back, heq⟩ := exists_clusters_mark hd hm rest
    rw [List.nil_append, heq]
    exact ⟨_, List.mem_cons_self .., [], more, by simp⟩
  | cons e front => exact exists_mem_clustersFrom_mark hd hm rest front _ _

end

/-! ## Counting -/

theorem offset_cons (offset : Nat) (c : Char) (text : List Char) :
    offset + (c :: text).length = offset + 1 + text.length := by
  rw [List.length_cons, Nat.add_comm text.length, Nat.add_assoc]

theorem offset_append (offset : Nat) (front text : List Char) :
    offset + (front ++ text).length = offset + front.length + text.length := by
  rw [List.length_append, Nat.add_assoc]

theorem length_le_length_flatten (parts : List Cluster) (h : ∀ x ∈ parts, x ≠ []) :
    parts.length ≤ parts.flatten.length := by
  induction parts with
  | nil => exact Nat.le_refl _
  | cons x parts ih =>
    have hx := List.length_pos_iff.mpr (h x (List.mem_cons_self ..))
    have hparts := ih (fun y hy => h y (List.mem_cons_of_mem x hy))
    rw [List.flatten_cons, List.length_append, List.length_cons]
    omega

theorem length_le_length16 (text : String) : text.toList.length ≤ length16 text := by
  unfold length16
  induction text.toList with
  | nil => exact Nat.le_refl _
  | cons c rest ih =>
    have hc := one_le_units16 c
    rw [List.length_cons, List.foldr_cons]
    omega

theorem length_characters_le (text : String) : (characters text).length ≤ length16 text := by
  calc (characters text).length
      ≤ (characters text).flatten.length :=
        length_le_length_flatten _ (ne_nil_of_mem_clusters text.toList)
    _ = text.toList.length := by rw [characters, flatten_clusters]
    _ ≤ length16 text := length_le_length16 text

end RunningTotal
