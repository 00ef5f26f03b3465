import RunningTotal.Json.Reader
import RunningTotal.Proofs.Binary64.Integer
import RunningTotal.Proofs.Decimal
import RunningTotal.Proofs.Record.Merge

/-! Reading what was written. `ReadsBack d e` says that the text of `d` is read as `e` wherever it stands
in a document; the two differ in numbers only, which lose the sign of zero or are `null`. Strings,
safe integers, arrays and records in order read back (`ReadsBack.array`, `ReadsBack.object`), and so
does a text as a whole (`ReadsBack.parse?_text`). No text has a character below the blank
(`printable_write`), so it is one line. -/
set_option autoImplicit false

namespace RunningTotal.Json

open Binary64

/-! ## Strings -/

theorem unit?_hexDigit {n : Nat} (h : n < 0x20) :
    unit? (hexDigit (n / 4096 % 16)) (hexDigit (n / 256 % 16)) (hexDigit (n / 16 % 16))
      (hexDigit (n % 16)) = some n :=
  (by decide : ∀ n < 0x20, unit? (hexDigit (n / 4096 % 16)) (hexDigit (n / 256 % 16))
    (hexDigit (n / 16 % 16)) (hexDigit (n % 16)) = some n) n h

theorem stringFrom_unitEscape (done : List Char) {n : Nat} (h : n < 0x20) (rest : List Char) :
    stringFrom done (unitEscape n ++ rest) = stringFrom (Char.ofNat n :: done) rest := by
  simp only [unitEscape, List.cons_append, List.nil_append]
  rw [stringFrom]
  simp only [unit?_hexDigit h]
  rw [if_pos (.inl (by omega))]

theorem stringFrom_plain (done : List Char) {c : Char} (hquote : c ≠ '"') (hslash : c ≠ '\\')
    (hlow : ¬ c.toNat < 0x20) (rest : List Char) :
    stringFrom done (c :: rest) = stringFrom (c :: done) rest := by
  rw [stringFrom.eq_def]
  split <;> simp_all

theorem stringFrom_letter (done : List Char) {c letter : Char} (hletter : letter ≠ 'u')
    (h : escaped? letter = some c) (rest : List Char) :
    stringFrom done (['\\', letter] ++ rest) = stringFrom (c :: done) rest := by
  rw [List.cons_append, List.cons_append, List.nil_append, stringFrom]
  · simp only [h]
  · intro _ _ _ _ _ heq _
    exact absurd heq hletter

/-- An escaped character is read as the character. -/
theorem stringFrom_escape (done : List Char) (c : Char) (rest : List Char) :
    stringFrom done (escape c ++ rest) = stringFrom (c :: done) rest := by
  unfold escape
  split_ifs with hquote hslash hback htab hline hfeed hreturn hlow
  · exact stringFrom_letter done (by decide) (by rw [hquote]; rfl) rest
  · exact stringFrom_letter done (by decide) (by rw [hslash]; rfl) rest
  · exact stringFrom_letter done (by decide) (by rw [hback]; rfl) rest
  · exact stringFrom_letter done (by decide) (by rw [htab]; rfl) rest
  · exact stringFrom_letter done (by decide) (by rw [hline]; rfl) rest
  · exact stringFrom_letter done (by decide) (by rw [hfeed]; rfl) rest
  · exact stringFrom_letter done (by decide) (by rw [hreturn]; rfl) rest
  · rw [stringFrom_unitEscape done hlow, Char.ofNat_toNat]
  · exact stringFrom_plain done hquote hslash hlow rest

theorem stringFrom_flatMap_escape (done text rest : List Char) :
    stringFrom done (text.flatMap escape ++ '"' :: rest) =
      some (String.ofList (done.reverse ++ text), rest) := by
  induction text generalizing done with
  | nil => simp [stringFrom]
  | cons c text ih =>
    rw [List.flatMap_cons, List.append_assoc, stringFrom_escape, ih]
    simp

theorem stringFrom_quote (text : String) (rest : List Char) :
    stringFrom [] (text.toList.flatMap escape ++ '"' :: rest) = some (text, rest) := by
  rw [stringFrom_flatMap_escape]
  simp

/-! ## Numbers -/

/-- What follows a value in a document. -/
inductive Follows : List Char → Prop
  | nothing : Follows []
  | comma (rest : List Char) : Follows (',' :: rest)
  | bracket (rest : List Char) : Follows (']' :: rest)
  | brace (rest : List Char) : Follows ('\x7d' :: rest)

theorem digits?_append {run rest : List Char} (hne : run ≠ []) (hrun : ∀ c ∈ run, c.isDigit = true)
    (hrest : Follows rest) : digits? (run ++ rest) = some (run, rest) := by
  have htake : rest.takeWhile Char.isDigit = [] := by cases hrest <;> rfl
  have hdrop : rest.dropWhile Char.isDigit = rest := by cases hrest <;> rfl
  simp only [digits?, List.takeWhile_append_of_pos hrun, List.dropWhile_append_of_pos hrun, htake,
    hdrop, List.append_nil, if_neg hne]

theorem ofDecimal_zero (negative : Bool) (n : Nat) : ofDecimal negative n 0 = Binary64.round negative n 1 := by
  unfold ofDecimal
  split
  · rename_i h
    rw [h, Binary64.round, if_pos rfl]
  · rw [if_neg (by omega), if_neg (by omega)]
    simp [power]

theorem unsigned?_decimal (negative : Bool) (n : Nat) {rest : List Char} (h : Follows rest) :
    unsigned? negative (decimal n ++ rest) = some (round negative n 1, rest) := by
  have hlead : ¬ ((decimal n).length ≠ 1 ∧ (decimal n).head? = some '0') := by
    rintro ⟨hlength, hhead⟩
    rw [(isNumeral_decimal n).lead hhead] at hlength
    exact hlength rfl
  have hfraction : fraction? rest = some ([], rest) := by cases h <;> rfl
  have hexponent : exponent? rest = some (0, rest) := by cases h <;> rfl
  simp only [unsigned?, digits?_append (decimal_ne_nil n) (isDigit_of_mem_decimal n) h,
    Option.bind_eq_bind, Option.bind_some, if_neg hlead, hfraction, hexponent, List.append_nil,
    ofDigits_decimal, List.length_nil, Nat.cast_zero, sub_zero, ofDecimal_zero]

theorem number?_decimalInt (n : Int) {rest : List Char} (h : Follows rest) :
    number? (decimalInt n ++ rest) = some (ofInt n, rest) := by
  unfold decimalInt ofInt
  split
  · rename_i hn
    rw [decide_eq_true hn, List.cons_append, number?, unsigned?_decimal true n.natAbs h]
  · rename_i hn
    have hminus : ∀ cs, decimal n.natAbs ++ rest ≠ '-' :: cs := by
      intro cs heq
      obtain ⟨c, digits, hdigits⟩ := List.exists_cons_of_ne_nil (decimal_ne_nil n.natAbs)
      have hc := isDigit_of_mem_decimal n.natAbs c (hdigits ▸ List.mem_cons_self ..)
      rw [hdigits, List.cons_append] at heq
      rw [(List.cons.inj heq).1] at hc
      cases hc
    rw [decide_eq_false hn, number?.eq_def]
    split
    · rename_i cs heq
      exact absurd heq (hminus cs)
    · exact unsigned?_decimal false n.natAbs h

/-! ## Documents -/

/-- The text of `d`, wherever it stands in a document, is read as `e`. Two calls for each character
are enough. -/
structure ReadsBack (d e : Json) : Prop where
  head : ∃ c cs, d.write = c :: cs ∧ isBlank c = false ∧ c ≠ ']'
  read : ∀ (rest : List Char) (fuel : Nat), Follows rest → 2 * d.write.length ≤ fuel →
    valueFrom fuel (d.write ++ rest) = some (e, rest)

theorem skipBlanks_cons {c : Char} (h : isBlank c = false) (cs : List Char) :
    skipBlanks (c :: cs) = c :: cs := by
  simp [skipBlanks, h]

theorem ReadsBack.length_pos {d e : Json} (h : ReadsBack d e) : 0 < d.write.length := by
  obtain ⟨c, cs, heq, -, -⟩ := h.head
  rw [heq]
  exact Nat.succ_pos _

theorem ReadsBack.skipBlanks {d e : Json} (h : ReadsBack d e) (rest : List Char) :
    skipBlanks (d.write ++ rest) = d.write ++ rest := by
  obtain ⟨c, cs, heq, hblank, -⟩ := h.head
  rw [heq, List.cons_append, skipBlanks_cons hblank]

theorem ReadsBack.ne_bracket {d e : Json} (h : ReadsBack d e) (rest cs : List Char) :
    d.write ++ rest ≠ ']' :: cs := by
  obtain ⟨c, cs', heq, -, hc⟩ := h.head
  rw [heq, List.cons_append]
  intro heq
  exact hc (List.cons.inj heq).1

theorem ReadsBack.of_succ {d e : Json} (head : ∃ c cs, d.write = c :: cs ∧ isBlank c = false ∧ c ≠ ']')
    (read : ∀ (rest : List Char) (fuel : Nat), Follows rest → 2 * d.write.length ≤ fuel + 1 →
      valueFrom (fuel + 1) (d.write ++ rest) = some (e, rest)) : ReadsBack d e where
  head := head
  read := by
    intro rest fuel hrest hfuel
    obtain ⟨c, cs, heq, -, -⟩ := head
    cases fuel with
    | zero => simp [heq] at hfuel
    | succ fuel => exact read rest fuel hrest hfuel

theorem ReadsBack.null : ReadsBack .null .null :=
  .of_succ ⟨'n', _, rfl, rfl, by decide⟩ fun _ _ _ _ => rfl

theorem ReadsBack.bool (value : Bool) : ReadsBack (.bool value) (.bool value) := by
  cases value
  · exact .of_succ ⟨'f', _, rfl, rfl, by decide⟩ fun _ _ _ _ => rfl
  · exact .of_succ ⟨'t', _, rfl, rfl, by decide⟩ fun _ _ _ _ => rfl

theorem ReadsBack.string (value : String) : ReadsBack (.string value) (.string value) := by
  refine .of_succ ⟨'"', _, rfl, rfl, by decide⟩ ?_
  intro rest fuel _ _
  have hquote : write (.string value) ++ rest =
      '"' :: (value.toList.flatMap escape ++ '"' :: rest) := by
    simp [write, quote]
  rw [hquote, valueFrom, skipBlanks_cons rfl]
  simp only [stringFrom_quote, Option.map_some]

theorem valueFrom_number {c : Char} (h : c = '-' ∨ c.isDigit = true) (fuel : Nat) (cs : List Char) :
    valueFrom (fuel + 1) (c :: cs) =
      (number? (c :: cs)).map fun (value, rest) => (.number value, rest) := by
  have hother (x : Char) (hx : (x = '-' ∨ x.isDigit = true) → False) : c ≠ x :=
    fun heq => hx (heq ▸ h)
  have hblank : isBlank c = false := by
    simp [isBlank, hother ' ' (by decide), hother '\t' (by decide), hother '\n' (by decide),
      hother '\r' (by decide)]
  rw [valueFrom, skipBlanks_cons hblank]
  split <;> rename_i heq <;> try exact absurd (List.cons.inj heq).1 (hother _ (by decide))
  rfl

theorem exists_head_decimalInt (n : Int) :
    ∃ c cs, decimalInt n = c :: cs ∧ (c = '-' ∨ c.isDigit = true) := by
  unfold decimalInt
  split
  · exact ⟨_, _, rfl, .inl rfl⟩
  · obtain ⟨c, cs, hdigits⟩ := List.exists_cons_of_ne_nil (decimal_ne_nil n.natAbs)
    exact ⟨c, cs, hdigits, .inr (isDigit_of_mem_decimal _ c (hdigits ▸ List.mem_cons_self ..))⟩

theorem ReadsBack.integer {x : Binary64} {n : Int} (h : x.safeInt? = some n) :
    ReadsBack (.number x) (.number (ofInt n)) := by
  have hwrite : write (.number x) = decimalInt n := by
    obtain ⟨y, rfl, -⟩ := exists_finite_of_toInt? (safeInt?_eq_some_iff.mp h).1
    rw [write, writeNumber, numeral, h]
  obtain ⟨c, cs, hdecimal, hc⟩ := exists_head_decimalInt n
  have hplain : isBlank c = false ∧ c ≠ ']' := by
    rcases hc with rfl | hc
    · exact ⟨rfl, by decide⟩
    · have hne (x : Char) (hx : x.isDigit = false) : c ≠ x := fun heq => by simp_all
      exact ⟨by simp [isBlank, hne], hne _ rfl⟩
  refine .of_succ ⟨c, cs, hwrite.trans hdecimal, hplain⟩ ?_
  intro rest fuel hrest _
  rw [hwrite, hdecimal, List.cons_append, valueFrom_number hc, ← List.cons_append, ← hdecimal,
    number?_decimalInt n hrest]
  rfl

theorem ReadsBack.notFinite {x : Binary64} (h : ∀ y, x ≠ .finite y) : ReadsBack (.number x) .null := by
  have hwrite : write (.number x) = write .null := by
    cases x with
    | finite y => exact absurd rfl (h y)
    | nan => rfl
    | infinite negative => rfl
  constructor
  · rw [hwrite]
    exact ReadsBack.null.head
  · rw [hwrite]
    exact ReadsBack.null.read

/-! ## Arrays -/

theorem itemsFrom_bracket {fuel : Nat} {cs rest : List Char} {item : Json}
    (h : valueFrom fuel cs = some (item, ']' :: rest)) :
    itemsFrom (fuel + 1) cs = some ([item], rest) := by
  rw [itemsFrom, h]
  rfl

theorem itemsFrom_comma {fuel : Nat} {cs rest : List Char} {item : Json}
    (h : valueFrom fuel cs = some (item, ',' :: rest)) :
    itemsFrom (fuel + 1) cs =
      (itemsFrom fuel rest).bind fun (items, rest) => some (item :: items, rest) := by
  rw [itemsFrom, h]
  rfl

theorem itemsFrom_write {item shown : Json} {items all : List Json} (h : ReadsBack item shown)
    (hitems : List.Forall₂ ReadsBack items all) (rest : List Char) (fuel : Nat)
    (hfuel : 2 * (item.write ++ writeItems items).length ≤ fuel) :
    itemsFrom fuel (item.write ++ (writeItems items ++ rest)) = some (shown :: all, rest) := by
  have hpos := h.length_pos
  rw [List.length_append] at hfuel
  obtain ⟨fuel, rfl⟩ := Nat.exists_eq_succ_of_ne_zero (by omega : fuel ≠ 0)
  induction hitems generalizing item shown fuel with
  | nil => exact itemsFrom_bracket (h.read _ _ (.bracket rest) (by simp [writeItems] at hfuel; omega))
  | @cons next shown' items all hnext hitems ih =>
    simp only [writeItems, List.length_cons, List.length_append] at hfuel
    have hnextPos := hnext.length_pos
    rw [writeItems, List.cons_append, List.cons_append, List.append_assoc,
      itemsFrom_comma (h.read _ _ (.comma _) (by omega))]
    cases fuel with
    | zero => omega
    | succ fuel =>
      rw [ih hnext hnextPos fuel (by omega)]
      rfl

theorem ReadsBack.array {items all : List Json} (h : List.Forall₂ ReadsBack items all) :
    ReadsBack (.array items) (.array all) := by
  cases h with
  | nil => exact .of_succ ⟨'[', _, rfl, rfl, by decide⟩ fun _ _ _ _ => rfl
  | @cons item shown items all hitem hitems =>
    refine .of_succ ⟨'[', _, rfl, rfl, by decide⟩ ?_
    intro rest fuel _ hfuel
    simp only [write, List.length_cons, List.length_append] at hfuel
    have hread := itemsFrom_write hitem hitems rest fuel (by rw [List.length_append]; omega)
    rw [write, List.cons_append, List.cons_append, List.append_assoc, valueFrom, skipBlanks_cons rfl]
    simp only [hitem.skipBlanks]
    split
    · rename_i cs heq
      exact absurd heq (hitem.ne_bracket _ _)
    · rw [hread]
      rfl

/-! ## Objects -/

theorem quote_append (name : String) (cs : List Char) :
    quote name ++ cs = '"' :: (name.toList.flatMap escape ++ '"' :: cs) := by
  simp [quote]

theorem membersFrom_quote {fuel : Nat} {cs rest : List Char} {value : Json} (name : String)
    (h : valueFrom fuel cs = some (value, rest)) :
    membersFrom (fuel + 1) (quote name ++ ':' :: cs) =
      match skipBlanks rest with
      | ',' :: cs => (membersFrom fuel cs).bind fun (members, cs) => some ((name, value) :: members, cs)
      | '\x7d' :: cs => some ([(name, value)], cs)
      | _ => none := by
  rw [quote_append, membersFrom, skipBlanks_cons rfl]
  simp only [stringFrom_quote, Option.bind_eq_bind, Option.bind_some]
  rw [skipBlanks_cons rfl]
  exact congrArg (Option.bind · _) h

/-- Two members have one name, and the value of the first reads back as that of the second. -/
def MemberReadsBack (p q : String × Json) : Prop := p.1 = q.1 ∧ ReadsBack p.2 q.2

theorem membersFrom_write (name : String) {value shown : Json} {members all : List (String × Json)}
    (h : ReadsBack value shown) (hmembers : List.Forall₂ MemberReadsBack members all)
    (rest : List Char) (fuel : Nat)
    (hfuel : 2 * (value.write ++ writeMembers members).length ≤ fuel) :
    membersFrom fuel (quote name ++ ':' :: (value.write ++ (writeMembers members ++ rest))) =
      some ((name, shown) :: all, rest) := by
  have hpos := h.length_pos
  rw [List.length_append] at hfuel
  obtain ⟨fuel, rfl⟩ := Nat.exists_eq_succ_of_ne_zero (by omega : fuel ≠ 0)
  induction hmembers generalizing name value shown fuel with
  | nil =>
    have hread := h.read _ fuel (.brace rest) (by simp [writeMembers] at hfuel; omega)
    exact membersFrom_quote name hread
  | @cons next nextShown members all hnext hmembers ih =>
    obtain ⟨nextName, nextValue⟩ := next
    obtain ⟨shownName, nextShown⟩ := nextShown
    obtain ⟨rfl, hnext⟩ : nextName = shownName ∧ ReadsBack nextValue nextShown := hnext
    simp only [writeMembers, List.length_cons, List.length_append] at hfuel
    have hnextPos := hnext.length_pos
    have hwrite : writeMembers ((nextName, nextValue) :: members) ++ rest = ',' ::
        (quote nextName ++ ':' :: (nextValue.write ++ (writeMembers members ++ rest))) := by
      simp [writeMembers]
    rw [hwrite, membersFrom_quote name (h.read _ _ (.comma _) (by omega)), skipBlanks_cons rfl]
    cases fuel with
    | zero => omega
    | succ fuel =>
      change (membersFrom (fuel + 1) _).bind _ = _
      rw [ih nextName hnext hnextPos fuel (by omega)]
      rfl

theorem ReadsBack.object {members all : List (String × Json)}
    (h : List.Forall₂ MemberReadsBack members all) :
    ReadsBack (.object members) (.object (Record.ofList all)) := by
  cases h with
  | nil => exact .of_succ ⟨'\x7b', _, rfl, rfl, by decide⟩ fun _ _ _ _ => rfl
  | @cons member shown members all hmember hmembers =>
    obtain ⟨name, value⟩ := member
    obtain ⟨shownName, shown⟩ := shown
    obtain ⟨rfl, hvalue⟩ : name = shownName ∧ ReadsBack value shown := hmember
    refine .of_succ ⟨'\x7b', _, rfl, rfl, by decide⟩ ?_
    intro rest fuel _ hfuel
    simp only [write, List.length_cons, List.length_append] at hfuel
    have hread := membersFrom_write name hvalue hmembers rest fuel
      (by rw [List.length_append]; omega)
    have hwrite : write (.object ((name, value) :: members)) ++ rest = '\x7b' ::
        (quote name ++ ':' :: (value.write ++ (writeMembers members ++ rest))) := by
      simp [write]
    rw [hwrite, valueFrom, skipBlanks_cons rfl]
    rw [quote_append] at hread ⊢
    change Option.map _ (membersFrom fuel _) = _
    rw [hread]
    rfl

/-! ## Whole texts -/

theorem ReadsBack.parse?_text {d e : Json} (h : ReadsBack d e) : parse? d.text = some e := by
  have hread := h.read [] (2 * d.write.length + 2) .nothing (by omega)
  rw [List.append_nil] at hread
  simp only [parse?, text, String.toList_ofList, hread]
  rfl

/-! ## One line -/

/-- No character is below the blank. -/
def Printable (text : List Char) : Prop := ∀ c ∈ text, 0x20 ≤ c.toNat

instance (text : List Char) : Decidable (Printable text) :=
  List.decidableBAll (fun c : Char => 0x20 ≤ c.toNat) text

@[simp] theorem printable_nil : Printable [] := fun _ h => by cases h

@[simp] theorem printable_cons {c : Char} {text : List Char} :
    Printable (c :: text) ↔ 0x20 ≤ c.toNat ∧ Printable text := List.forall_mem_cons

@[simp] theorem printable_append {front back : List Char} :
    Printable (front ++ back) ↔ Printable front ∧ Printable back := List.forall_mem_append

theorem Printable.of_subset {part text : List Char} (h : Printable text) (hpart : part ⊆ text) :
    Printable part := fun c hc => h c (hpart hc)

theorem printable_unitEscape (n : Nat) : Printable (unitEscape n) := by
  have hdigit (k : Nat) : 0x20 ≤ (hexDigit (k % 16)).toNat :=
    (by decide : ∀ k < 16, 0x20 ≤ (hexDigit k).toNat) _ (Nat.mod_lt k (by omega))
  simp only [unitEscape, printable_cons, hdigit, printable_nil, and_true]
  decide

theorem printable_escape (c : Char) : Printable (escape c) := by
  unfold escape
  split_ifs with hquote hslash hback htab hline hfeed hreturn hlow
  all_goals try decide
  · exact printable_unitEscape c.toNat
  · simpa using hlow

theorem printable_quote (text : String) : Printable (quote text) := by
  have hescape : Printable (text.toList.flatMap escape) := by
    intro c hc
    obtain ⟨d, -, hd⟩ := List.mem_flatMap.mp hc
    exact printable_escape d c hd
  simp [quote, hescape]

theorem printable_decimal (n : Nat) : Printable (decimal n) := by
  intro c hc
  have hlow := (toNat_of_isDigit (isDigit_of_mem_decimal n c hc)).1
  exact le_trans (by decide) hlow

theorem printable_decimalInt (n : Int) : Printable (decimalInt n) := by
  unfold decimalInt
  split <;> simp [printable_decimal]

theorem printable_layout {digits : List Char} (h : Printable digits) (point : Int) :
    Printable (layout digits point) := by
  have hzeros (k : Nat) : Printable (List.replicate k '0') := by
    intro c hc
    rw [List.eq_of_mem_replicate hc]
    decide
  have htake (k : Nat) : Printable (digits.take k) := h.of_subset (List.take_subset k digits)
  have hdrop (k : Nat) : Printable (digits.drop k) := h.of_subset (List.drop_subset k digits)
  have htail : Printable digits.tail := h.of_subset (List.tail_subset digits)
  have hexponent : Printable (exponentForm digits point) := by
    unfold exponentForm
    dsimp only
    split_ifs <;> simp [htake, htail, printable_decimal]
  unfold layout
  dsimp only
  split_ifs
  · simp [h, hzeros]
  · simp [htake, hdrop]
  · simp [h, hzeros]
  · exact hexponent

theorem printable_shortest (x : Finite) : Printable (shortest x).1 := by
  unfold shortest
  dsimp only
  intro c hc
  have hmem := List.mem_reverse.mp (List.dropWhile_subset _ (List.mem_reverse.mp hc))
  exact printable_decimal _ c hmem

theorem printable_numeral (x : Binary64) : Printable x.numeral := by
  unfold numeral
  split
  · exact printable_decimalInt _
  · split
    · decide
    · split <;> decide
    · rename_i y _
      have h := printable_layout (printable_shortest y) (shortest y).2
      dsimp only
      split <;> simp [h]

theorem printable_writeNumber (x : Binary64) : Printable (writeNumber x) := by
  cases x with
  | finite y => exact printable_numeral _
  | nan => decide
  | infinite => exact (by decide : Printable "null".toList)

mutual

theorem printable_write : ∀ d : Json, Printable d.write
  | .null => by decide
  | .bool true => by decide
  | .bool false => by decide
  | .number x => printable_writeNumber x
  | .string text => printable_quote text
  | .array [] => by decide
  | .array (item :: items) => by
    simp [write, printable_write item, printable_writeItems items]
  | .object [] => by decide
  | .object ((name, value) :: members) => by
    simp [write, printable_quote name, printable_write value, printable_writeMembers members]

theorem printable_writeItems : ∀ items : List Json, Printable (writeItems items)
  | [] => by decide
  | item :: items => by simp [writeItems, printable_write item, printable_writeItems items]

theorem printable_writeMembers : ∀ members : List (String × Json), Printable (writeMembers members)
  | [] => by decide
  | (name, value) :: members => by
    simp [writeMembers, printable_quote name, printable_write value, printable_writeMembers members]

end

end RunningTotal.Json
