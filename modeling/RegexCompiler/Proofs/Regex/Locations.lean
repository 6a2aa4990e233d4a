import Mathlib.Data.List.Basic
import Mathlib.Tactic.Common
import RegexCompiler.Diagnostic
import RegexCompiler.Regex.Parser

/-!
# Where faults point

Every position that is kept for a later report is the position of the character that the report
would show: of the `(` that are open in the first pass, and of the `)` and `+` that wait in the
second one. So a fault points at its own character, and the marked range of bytes holds this
character and nothing else. Only the whole text as the outermost group has no character of its own.
If the limit does not even allow for it, the end of the text is marked.
-/

namespace RegexCompiler

namespace ByteRange

/-- The range is a part of the text that begins and ends between characters. -/
structure Valid (source : String) (range : ByteRange) : Prop where
  ordered : range.start ≤ range.stop
  within : range.stop ≤ source.utf8ByteSize
  start_boundary : String.Pos.Raw.IsValid source ⟨range.start⟩
  stop_boundary : String.Pos.Raw.IsValid source ⟨range.stop⟩

/-- The bytes of a text in the range. -/
def slice (source : String) (range : ByteRange) : ByteArray :=
  source.toByteArray.extract range.start range.stop

lemma length_eq (text : List Char) : length text = (String.ofList text).utf8ByteSize := by
  induction text with
  | nil => rfl
  | cons c text ih =>
    have hsplit : String.ofList (c :: text) = String.singleton c ++ String.ofList text := by
      rw [← String.toList_inj]
      simp
    rw [hsplit, String.utf8ByteSize_append, String.utf8ByteSize_singleton, ← ih]
    rfl

lemma ofPosition_eq (before after : String) (c : Char) :
    ofPosition (before ++ String.singleton c ++ after).toList before.toList.length =
      ⟨before.utf8ByteSize, (before ++ String.singleton c).utf8ByteSize⟩ := by
  have htext : (before ++ String.singleton c ++ after).toList =
      before.toList ++ c :: after.toList := by
    simp
  unfold ofPosition
  rw [htext, List.take_left, List.getElem?_append_right (Nat.le_refl _), Nat.sub_self, length_eq,
    String.ofList_toList]
  simp

lemma valid_between (before middle after : String) :
    Valid (before ++ middle ++ after) ⟨before.utf8ByteSize, (before ++ middle).utf8ByteSize⟩ where
  ordered := by
    dsimp only
    rw [String.utf8ByteSize_append]
    omega
  within := by
    dsimp only
    rw [String.utf8ByteSize_append (s := before ++ middle)]
    omega
  start_boundary :=
    String.Pos.Raw.isValid_iff_exists_append.mpr ⟨before, middle ++ after, String.append_assoc, rfl⟩
  stop_boundary := String.Pos.Raw.isValid_iff_exists_append.mpr ⟨before ++ middle, after, rfl, rfl⟩

lemma slice_between (before middle after : String) :
    slice (before ++ middle ++ after) ⟨before.utf8ByteSize, (before ++ middle).utf8ByteSize⟩ =
      middle.toByteArray := by
  have hskip := ByteArray.extract_append_size_add (a := before.toByteArray)
    (b := (middle ++ after).toByteArray) (i := 0) (j := middle.utf8ByteSize)
  rw [String.size_toByteArray, ← String.toByteArray_append, ← String.append_assoc] at hskip
  unfold slice
  dsimp only
  rw [String.utf8ByteSize_append, ← Nat.add_zero before.utf8ByteSize, Nat.add_assoc, Nat.zero_add,
    hskip, String.toByteArray_append]
  exact ByteArray.extract_append_eq_left String.size_toByteArray.symm

theorem ofPosition_shows {source : String} {i : Nat} {c : Char} (hc : source.toList[i]? = some c) :
    (ofPosition source.toList i).Valid source ∧
      (ofPosition source.toList i).slice source = (String.singleton c).toByteArray := by
  obtain ⟨before, after, hlist, hlength⟩ : ∃ before after,
      source.toList = before ++ c :: after ∧ before.length = i := by
    obtain ⟨hi, rfl⟩ := List.getElem?_eq_some_iff.mp hc
    refine ⟨source.toList.take i, source.toList.drop (i + 1), ?_, ?_⟩
    · rw [← List.drop_eq_getElem_cons hi, List.take_append_drop]
    · rw [List.length_take, Nat.min_eq_left (Nat.le_of_lt hi)]
  obtain rfl : source = String.ofList before ++ String.singleton c ++ String.ofList after := by
    rw [← String.toList_inj, hlist]
    simp
  have hrange := ofPosition_eq (String.ofList before) (String.ofList after) c
  rw [String.toList_ofList, hlength] at hrange
  rw [hrange]
  exact ⟨valid_between _ _ _, slice_between _ _ _⟩

lemma ofPosition_length (source : String) :
    ofPosition source.toList source.toList.length = ⟨source.utf8ByteSize, source.utf8ByteSize⟩ := by
  unfold ofPosition
  rw [List.take_length, List.getElem?_eq_none (Nat.le_refl _), length_eq, String.ofList_toList]

lemma valid_end (source : String) : Valid source ⟨source.utf8ByteSize, source.utf8ByteSize⟩ := by
  have hend := valid_between source "" ""
  rwa [String.append_empty, String.append_empty] at hend

end ByteRange

/-- The fault names the character at its position. -/
def Fault.PointsIn (text : List Char) (fault : Fault) : Prop :=
  text[fault.position]? = some fault.character

namespace Regex

/-- The result has a property, or else a fault points to the character that is to blame. -/
def Accounted (text : List Char) {α : Type} (p : α → Prop) : Except Fault α → Prop
  | .ok a => p a
  | .error fault => fault.PointsIn text

lemma Accounted.bind {text : List Char} {α β : Type} {p : α → Prop} {q : β → Prop}
    {x : Except Fault α} {f : α → Except Fault β} (hx : Accounted text p x)
    (hf : ∀ a, p a → Accounted text q (f a)) : Accounted text q (x >>= f) := by
  cases x with
  | error fault => exact hx
  | ok a => exact hf a hx

lemma Accounted.points {text : List Char} {α : Type} {p : α → Prop} {x : Except Fault α}
    {fault : Fault} (hx : Accounted text p x) (h : x = .error fault) : fault.PointsIn text := by
  rw [h] at hx
  exact hx

variable {alphabet : Alphabet} {limit : Option Nat} {text : List Char} {i depth : Nat} {c : Char}
  {s : Scan}

/-! ### The first pass -/

lemma accounted_checkBalance {rest : Located} {opened : List Nat}
    (hrest : ∀ entry ∈ rest, text[entry.2]? = some entry.1)
    (hopened : ∀ i ∈ opened, text[i]? = some '(') :
    Accounted text (fun _ => True) (checkBalance alphabet rest opened) := by
  fun_induction checkBalance alphabet rest opened with
  | case1 => trivial
  | case2 => exact (List.forall_mem_cons.mp hopened).1
  | case3 =>
    rename_i ih
    rw [List.forall_mem_cons] at hrest
    exact ih hrest.2 (List.forall_mem_cons.mpr ⟨hrest.1, hopened⟩)
  | case4 => exact (List.forall_mem_cons.mp hrest).1
  | case5 =>
    rename_i ih
    rw [List.forall_mem_cons] at hrest hopened
    exact ih hrest.2 hopened.2
  | case6 =>
    rename_i ih
    exact ih (List.forall_mem_cons.mp hrest).2 hopened
  | case7 => exact (List.forall_mem_cons.mp hrest).1

/-! ### The second pass -/

lemma accounted_enter (hc : text[i]? = some c) :
    Accounted text (fun _ => True) (enter limit depth c i) := by
  unfold enter
  cases limit with
  | none => trivial
  | some bound =>
    dsimp only
    split
    · exact hc
    · trivial

lemma accounted_checkUnion {union : Regex} (hc : text[i]? = some '+') :
    Accounted text (fun _ => True) (checkUnion limit depth union i) := by
  unfold checkUnion
  cases limit with
  | none => trivial
  | some bound =>
    dsimp only
    split
    · exact hc
    · trivial

/-- The alternatives that wait for an operand know where their `+` stands. -/
def PendingAnchored (text : List Char) (pending : List Pending) : Prop :=
  ∀ i right, Pending.union i right ∈ pending → text[i]? = some '+'

/-- So do all groups, and all but the outermost one know where their `)` stands. -/
def Anchored (text : List Char) : Group → List Group → Prop
  | group, [] => PendingAnchored text group.pending
  | group, next :: outer =>
    text[group.close]? = some ')' ∧ PendingAnchored text group.pending ∧ Anchored text next outer

lemma Anchored.pending {group : Group} {outer : List Group} (h : Anchored text group outer) :
    PendingAnchored text group.pending := by
  cases outer with
  | nil => exact h
  | cons next outer => exact h.2.1

lemma Anchored.update {group : Group} {outer : List Group} (h : Anchored text group outer)
    {children : List Regex} {pending : List Pending} (hpending : PendingAnchored text pending) :
    Anchored text { group with children := children, pending := pending } outer := by
  cases outer with
  | nil => exact hpending
  | cons next outer => exact ⟨h.1, hpending, h.2.2⟩

lemma accounted_applyPending {pending : List Pending} {operand : Regex}
    (h : PendingAnchored text pending) :
    Accounted text (fun _ => True) (applyPending limit pending depth operand) := by
  induction pending generalizing depth operand with
  | nil => trivial
  | cons operator pending ih =>
    have hrest : PendingAnchored text pending := fun i right hmem =>
      h i right (List.mem_cons_of_mem _ hmem)
    cases operator with
    | star => exact ih hrest
    | union i right =>
      apply (accounted_checkUnion (h i right List.mem_cons_self)).bind
      exact fun _ _ => ih hrest

lemma accounted_add {operand : Regex} (h : Anchored text s.group s.outer) :
    Accounted text (fun s => Anchored text s.group s.outer) (s.add limit operand) := by
  apply (accounted_applyPending h.pending).bind
  intro result _
  exact h.update fun _ _ hmem => absurd hmem List.not_mem_nil

lemma accounted_step {before : Located} (hc : text[i]? = some c)
    (h : Anchored text s.group s.outer) :
    Accounted text (fun s => Anchored text s.group s.outer)
      (s.step alphabet limit before c i) := by
  unfold Scan.step
  split
  · apply (accounted_enter hc).bind
    intro depth _
    split
    · exact hc
    · apply h.update
      intro j right hmem
      exact h.pending j right ((List.mem_cons.mp hmem).resolve_left (by simp))
  · split
    · exact hc
    · apply (accounted_enter hc).bind
      intro depth _
      split
      · exact hc
      · apply h.update
        intro j right hmem
        rcases List.mem_cons.mp hmem with hnew | hold
        · cases hnew
          exact hc
        · exact h.pending j right hold
  · apply (accounted_enter hc).bind
    intro depth _
    exact ⟨hc, fun _ _ hmem => absurd hmem List.not_mem_nil, h⟩
  · split
    · exact hc
    · rename_i group outer houter
      rw [houter] at h
      exact accounted_add h.2.2
  · split
    · exact accounted_add h
    · exact hc

lemma accounted_scan {unread : Located} (hunread : ∀ entry ∈ unread, text[entry.2]? = some entry.1)
    (h : Anchored text s.group s.outer) :
    Accounted text (fun s => Anchored text s.group s.outer) (scan alphabet limit unread s) := by
  induction unread generalizing s with
  | nil => exact h
  | cons entry before ih =>
    rw [List.forall_mem_cons] at hunread
    apply (accounted_step hunread.1 h).bind
    exact fun _ hnext => ih hunread.2 hnext

lemma accounted_result (h : Anchored text s.group s.outer) :
    Accounted text (fun _ => True) s.result := by
  unfold Scan.result
  split
  · trivial
  · rename_i houter
    rw [houter] at h
    exact h.1

/-! ### Whole texts -/

lemma forall_mem_zipIdx (text : List Char) :
    ∀ entry ∈ text.zipIdx, text[entry.2]? = some entry.1 :=
  fun _ hentry => List.mem_zipIdx_iff_getElem?.mp hentry

/-- If the limit allows for the whole text as a group, all faults point at their characters. -/
lemma accounted_parse (hlimit : limit ≠ some 0) (text : List Char) :
    Accounted text (fun _ => True) (parse alphabet limit text) := by
  have hwhole : enter limit 0 ')' text.length = .ok 1 := by
    unfold enter
    cases limit with
    | none => rfl
    | some bound =>
      have hbound : ¬bound ≤ 0 := by
        intro hle
        exact hlimit (congrArg some (Nat.le_zero.mp hle))
      simp only [if_neg hbound]
  unfold parse
  apply (accounted_checkBalance (forall_mem_zipIdx text) (by simp)).bind
  intro _ _
  rw [hwhole]
  have hscan : Accounted text (fun s => Anchored text s.group s.outer)
      (scan alphabet limit text.zipIdx.reverse ⟨⟨text.length, [], []⟩, [], 1⟩) := by
    apply accounted_scan
    · intro entry hentry
      exact forall_mem_zipIdx text entry (List.mem_reverse.mp hentry)
    · exact fun _ _ hmem => absurd hmem List.not_mem_nil
  exact hscan.bind fun _ h => accounted_result h

/-- Every fault points at its own character: its position is one of the text, it names the character
that stands there, and the range of bytes that is marked lies between characters and holds exactly
this one. The limit zero refuses all that passes the first check as the group that it would be, at
the end of the text, where the empty range is marked. -/
theorem parse_faults_point (alphabet : Alphabet) (source : String) :
    (∀ limit fault, limit ≠ some 0 → parse alphabet limit source.toList = .error fault →
        fault.position < source.toList.length ∧
          source.toList[fault.position]? = some fault.character ∧
          (ByteRange.ofPosition source.toList fault.position).Valid source ∧
          (ByteRange.ofPosition source.toList fault.position).slice source =
            (String.singleton fault.character).toByteArray) ∧
      (checkBalance alphabet source.toList.zipIdx [] = .ok () →
        parse alphabet (some 0) source.toList = .error (.tooDeep ')' source.toList.length)) ∧
      ByteRange.ofPosition source.toList source.toList.length =
        ⟨source.utf8ByteSize, source.utf8ByteSize⟩ ∧
      ByteRange.Valid source ⟨source.utf8ByteSize, source.utf8ByteSize⟩ := by
  refine ⟨fun limit fault hlimit h => ?_, fun h => ?_, ByteRange.ofPosition_length source,
    ByteRange.valid_end source⟩
  · have hpoints := (accounted_parse hlimit source.toList).points h
    have hposition := (List.getElem?_eq_some_iff.mp hpoints).1
    exact ⟨hposition, hpoints, ByteRange.ofPosition_shows hpoints⟩
  · rw [parse, h]
    rfl

/-- A character of two bytes that is no symbol, and a text that the limit zero refuses. -/
theorem parse_faults_point_multibyte :
    parse .standard (some 512) "(aé".toList = .error (.foreign 'é' 2) ∧
      (ByteRange.ofPosition "(aé".toList 2).slice "(aé" = "é".toByteArray ∧
      parse .standard (some 0) "(a)b".toList = .error (.tooDeep ')' 4) := by
  have hparse : parse .standard (some 512) "(aé".toList = .error (.foreign 'é' 2) := by rfl
  have hbalance : checkBalance .standard "(a)b".toList.zipIdx [] = .ok () := by rfl
  obtain ⟨hpoints, -, -⟩ := parse_faults_point .standard "(aé"
  obtain ⟨-, -, -, hslice⟩ := hpoints (some 512) _ (by decide) hparse
  exact ⟨hparse, hslice, (parse_faults_point .standard "(a)b").2.1 hbalance⟩

end Regex

end RegexCompiler
