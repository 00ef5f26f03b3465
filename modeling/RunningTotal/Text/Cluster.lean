import RunningTotal.Text.BreakClass

/-! User-perceived characters: `clusters` divides text at the boundaries of extended grapheme
clusters. What the rules ask about the text before a boundary is kept in `Tail`, and it never
reaches past the start of the current cluster, so a new cluster starts a new `Tail`. Nothing is
lost (`flatten_clusters`), no cluster is empty (`ne_nil_of_mem_clusters`), and two characters of
class `other` are always apart (`clusters_cons_cons_of_other`). -/
set_option autoImplicit false

namespace RunningTotal

/-- A user-perceived character. -/
abbrev Cluster := List Char

/-! ## The end of the current cluster -/

/-- The last class, and which of the sequences that bind what follows the cluster ends in:
an odd number of regional indicators; a pictograph and its extensions, or these and a joiner;
a consonant and its marks, and whether a linker is among them. -/
structure Tail where
  last : BreakClass
  oddRegional : Bool
  pictograph : Bool
  pictographJoiner : Bool
  consonant : Bool
  linked : Bool
  deriving DecidableEq

namespace Tail

def start (k : BreakClass) : Tail where
  last := k
  oddRegional := k == .regional
  pictograph := k == .pictograph
  pictographJoiner := false
  consonant := k == .consonant
  linked := false

def push (t : Tail) (k : BreakClass) : Tail where
  last := k
  oddRegional := k == .regional && !t.oddRegional
  pictograph := k == .pictograph ||
    t.pictograph && (k == .extend || k == .linker || k == .nonJoiner)
  pictographJoiner := t.pictograph && k == .joiner
  consonant := k == .consonant ||
    t.consonant && (k == .extend || k == .linker || k == .joiner)
  linked := t.consonant && (k == .linker || t.linked && (k == .extend || k == .joiner))

/-- Whether a character of class `k` continues the cluster. -/
def joins (t : Tail) (k : BreakClass) : Bool :=
  match t.last, k with
  | .carriageReturn, .lineFeed => true
  | .carriageReturn, _ | .lineFeed, _ | .control, _ => false
  | _, .carriageReturn | _, .lineFeed | _, .control => false
  | .leading, .leading | .leading, .vowel | .leading, .openSyllable | .leading, .closedSyllable => true
  | .openSyllable, .vowel | .openSyllable, .trailing | .vowel, .vowel | .vowel, .trailing => true
  | .closedSyllable, .trailing | .trailing, .trailing => true
  | _, .extend | _, .linker | _, .nonJoiner | _, .joiner | _, .spacing => true
  | .prepend, _ => true
  | _, .consonant => t.linked
  | _, .pictograph => t.pictographJoiner
  | _, .regional => t.oddRegional
  | _, _ => false

theorem joins_other_other {t : Tail} (h : t.last = .other) : t.joins .other = false := by
  simp [joins, h]

end Tail

/-! ## Division -/

/-- `current` is the cluster being read and `done` the finished ones, both newest first. -/
def clustersFrom (tail : Tail) (current : Cluster) (done : List Cluster) : List Char → List Cluster
  | [] => (current.reverse :: done).reverse
  | c :: rest =>
    let k := BreakClass.ofChar c
    if tail.joins k then clustersFrom (tail.push k) (c :: current) done rest
    else clustersFrom (Tail.start k) [c] (current.reverse :: done) rest

def clusters : List Char → List Cluster
  | [] => []
  | c :: rest => clustersFrom (Tail.start (BreakClass.ofChar c)) [c] [] rest

/-- The user-perceived characters of a text. -/
def characters (text : String) : List Cluster := clusters text.toList

@[simp] theorem clusters_nil : clusters [] = [] := rfl

theorem clustersFrom_cons (tail : Tail) (current : Cluster) (done : List Cluster) (c : Char)
    (rest : List Char) :
    clustersFrom tail current done (c :: rest) =
      if tail.joins (BreakClass.ofChar c) then
        clustersFrom (tail.push (BreakClass.ofChar c)) (c :: current) done rest
      else clustersFrom (Tail.start (BreakClass.ofChar c)) [c] (current.reverse :: done) rest := rfl

theorem clustersFrom_done (rest : List Char) (tail : Tail) (current : Cluster) (done : List Cluster) :
    clustersFrom tail current done rest = done.reverse ++ clustersFrom tail current [] rest := by
  induction rest generalizing tail current done with
  | nil => simp [clustersFrom]
  | cons c rest ih =>
    simp only [clustersFrom]
    split
    · exact ih ..
    · rw [ih _ _ (current.reverse :: done), ih _ _ [current.reverse]]
      simp

theorem flatten_clustersFrom (rest : List Char) (tail : Tail) (current : Cluster) :
    (clustersFrom tail current [] rest).flatten = current.reverse ++ rest := by
  induction rest generalizing tail current with
  | nil => simp [clustersFrom]
  | cons c rest ih =>
    simp only [clustersFrom]
    split
    · simp [ih]
    · rw [clustersFrom_done]
      simp [ih]

theorem flatten_clusters (text : List Char) : (clusters text).flatten = text := by
  cases text with
  | nil => rfl
  | cons c rest => simp [clusters, flatten_clustersFrom]

theorem ne_nil_of_mem_clustersFrom (rest : List Char) (tail : Tail) (current : Cluster)
    (hc : current ≠ []) : ∀ x ∈ clustersFrom tail current [] rest, x ≠ [] := by
  induction rest generalizing tail current with
  | nil => simpa [clustersFrom] using hc
  | cons c rest ih =>
    simp only [clustersFrom]
    split
    · exact ih _ _ (by simp)
    · rw [clustersFrom_done]
      intro x hx
      simp only [List.reverse_cons, List.reverse_nil, List.nil_append, List.mem_append,
        List.mem_singleton] at hx
      rcases hx with rfl | hx
      · simpa using hc
      · exact ih _ _ (by simp) x hx

theorem ne_nil_of_mem_clusters (text : List Char) : ∀ x ∈ clusters text, x ≠ [] := by
  cases text with
  | nil => simp
  | cons c rest => exact ne_nil_of_mem_clustersFrom rest _ _ (by simp)

theorem clusters_cons_cons_of_other {c d : Char} (rest : List Char)
    (hc : BreakClass.ofChar c = .other) (hd : BreakClass.ofChar d = .other) :
    clusters (c :: d :: rest) = [c] :: clusters (d :: rest) := by
  have h : (Tail.start .other).joins .other = false := Tail.joins_other_other rfl
  simp only [clusters, clustersFrom, hc, hd, h, Bool.false_eq_true, if_false]
  rw [clustersFrom_done]
  rfl

end RunningTotal
