import Mathlib.Data.List.Forall2
import Clausal.Dimacs

/-! # Lines of bytes

A text that is put together from lines, each with a line feed behind it, is cut into exactly these
lines again, whatever else is in them (`Dimacs.readLines_toUTF8`).  The bytes of a character hold a
line feed only if the character is one, so that cutting the bytes is cutting the text. -/

namespace Clausal

/-! ### Steps that may fail -/

/-- Steps one after another all succeed exactly when each of them does. -/
theorem mapM_eq_ok {α β ε : Type} {f : α → Except ε β} {xs : List α} {ys : List β} :
    xs.mapM f = .ok ys ↔ List.Forall₂ (fun x y => f x = .ok y) xs ys := by
  induction xs generalizing ys with
  | nil =>
      rw [List.mapM_nil, List.forall₂_nil_left_iff]
      exact ⟨fun h => by cases h; rfl, fun h => by rw [h]; rfl⟩
  | cons x xs ih =>
      rw [List.mapM_cons, List.forall₂_cons_left_iff]
      simp only [← ih]
      cases hx : f x with
      | error e => exact iff_of_false nofun fun ⟨_, _, h, _⟩ => nomatch h
      | ok y =>
          cases hxs : xs.mapM f with
          | error e => exact iff_of_false nofun fun ⟨_, _, _, h, _⟩ => nomatch h
          | ok zs =>
              show Except.ok (y :: zs) = .ok ys ↔ _
              simp [eq_comm]

theorem mapM_map_eq_ok {α β ε : Type} {f : α → Except ε β} {g : α → β} {xs : List α}
    (h : ∀ x ∈ xs, f x = .ok (g x)) : xs.mapM f = .ok (xs.map g) := by
  rw [mapM_eq_ok, List.forall₂_map_right_iff, List.forall₂_same]
  exact h

theorem exists_of_mapM {α β ε : Type} {f : α → Except ε β} {xs : List α} {ys : List β} {y : β}
    (h : xs.mapM f = .ok ys) (hy : y ∈ ys) : ∃ x ∈ xs, f x = .ok y := by
  replace h := mapM_eq_ok.mp h
  induction h with
  | nil => cases hy
  | cons hxy _ ih =>
      rcases List.mem_cons.mp hy with rfl | hy
      · exact ⟨_, List.mem_cons_self, hxy⟩
      · obtain ⟨x, hx, hxy⟩ := ih hy
        exact ⟨x, List.mem_cons_of_mem _ hx, hxy⟩

namespace Dimacs

/-! ### Bytes of a text -/

/-- The bytes of characters in UTF-8. -/
def utf8 (cs : List Char) : List UInt8 := cs.flatMap String.utf8EncodeChar

theorem toList_loop (bs : ByteArray) (i : Nat) (r : List UInt8) :
    ByteArray.toList.loop bs i r = r.reverse ++ bs.data.toList.drop i := by
  fun_induction ByteArray.toList.loop bs i r with
  | case1 i r h ih =>
      have hi : i < bs.data.toList.length := h
      rw [ih, List.drop_eq_getElem_cons hi]
      simp [ByteArray.get!, h]
  | case2 i r h =>
      have hi : bs.data.toList.length ≤ i := Nat.le_of_not_lt h
      rw [List.drop_eq_nil_of_le hi, List.append_nil]

theorem toList_toUTF8 (s : String) : s.toUTF8.toList = utf8 s.toList := by
  have hbytes : s.toUTF8 = s.toList.utf8Encode := by
    rw [← String.toByteArray_ofList, String.ofList_toList]
    rfl
  have hdata (bs : ByteArray) : bs.toList = bs.data.toList := toList_loop bs 0 []
  rw [hdata, hbytes, List.utf8Encode, List.toList_data_toByteArray, utf8]

theorem toList_toUTF8_append (s s' : String) :
    (s ++ s').toUTF8.toList = s.toUTF8.toList ++ s'.toUTF8.toList := by
  rw [toList_toUTF8, toList_toUTF8, toList_toUTF8, utf8, String.toList_append, List.flatMap_append]
  rfl

theorem decode?_utf8 (cs : List Char) : decode? (utf8 cs) = some cs := by
  have hbytes : (⟨(utf8 cs).toArray⟩ : ByteArray) = cs.utf8Encode := by
    rw [List.utf8Encode, ← utf8]
    exact ByteArray.ext (List.data_toByteArray).symm
  rw [decode?, hbytes, List.utf8Decode?_utf8Encode]
  rfl

theorem ofNat_eq_lineFeed {n : Nat} : UInt8.ofNat n = 10 ↔ n % 256 = 10 := by
  rw [← UInt8.toNat_inj, UInt8.toNat_ofNat']
  rfl

/-- All bytes of a character beyond ASCII have their highest bit set. -/
theorem lineFeed_mem_utf8EncodeChar {c : Char} (h : 10 ∈ String.utf8EncodeChar c) : c = '\n' := by
  suffices hval : c.val.toNat = 10 from Char.ext (UInt32.toNat_inj.mp hval)
  unfold String.utf8EncodeChar at h
  generalize c.val.toNat = v at h
  have hbyte {n : Nat} : 10 = UInt8.ofNat n ↔ n % 256 = 10 := eq_comm.trans ofNat_eq_lineFeed
  dsimp only at h
  split_ifs at h <;> simp only [List.mem_cons, List.not_mem_nil, or_false, hbyte] at h <;> omega

theorem lineFeed_not_mem_utf8 {cs : List Char} (h : '\n' ∉ cs) : 10 ∉ utf8 cs := by
  intro hmem
  obtain ⟨c, hc, hbyte⟩ := List.mem_flatMap.mp hmem
  exact h (lineFeed_mem_utf8EncodeChar hbyte ▸ hc)

/-! ### Cutting at line feeds -/

theorem linesBehind_append {line : List UInt8} (h : 10 ∉ line) (done : List (List UInt8))
    (begun rest : List UInt8) : linesBehind done begun (line ++ 10 :: rest) =
      linesBehind ((begun.reverse ++ line) :: done) [] rest := by
  induction line generalizing begun with
  | nil => rw [List.nil_append, linesBehind, if_pos rfl, List.append_nil]
  | cons b line ih =>
      have hb : b ≠ 10 := fun heq => h (heq ▸ List.mem_cons_self)
      have ih := ih (fun hmem => h (List.mem_cons_of_mem b hmem)) (b :: begun)
      rw [List.cons_append, linesBehind, if_neg hb, ih, List.reverse_cons, List.append_assoc,
        List.singleton_append]

/-- The lines that are done stay as they are. -/
theorem linesBehind_eq (done : List (List UInt8)) (begun bs : List UInt8) :
    linesBehind done begun bs = done.reverse ++ linesBehind [] begun bs := by
  induction bs generalizing done begun with
  | nil => cases begun <;> simp [linesBehind]
  | cons b bs ih =>
      rw [linesBehind, linesBehind]
      split
      · rw [ih, ih [begun.reverse], List.reverse_cons, List.append_assoc, List.reverse_singleton]
      · exact ih done (b :: begun)

theorem splitLines_flatMap_append {lines : List (List UInt8)} (h : ∀ line ∈ lines, 10 ∉ line)
    (rest : List UInt8) :
    splitLines (lines.flatMap (· ++ [10]) ++ rest) = lines ++ splitLines rest := by
  induction lines with
  | nil => rfl
  | cons line lines ih =>
      have hline := h line List.mem_cons_self
      have ih := ih fun l hl => h l (List.mem_cons_of_mem line hl)
      rw [splitLines] at ih
      rw [List.flatMap_cons, List.append_assoc, List.append_assoc, List.singleton_append,
        splitLines, linesBehind_append hline, linesBehind_eq, ih, List.reverse_singleton,
        List.reverse_nil, List.nil_append, List.singleton_append, List.cons_append]

theorem splitLines_flatMap {lines : List (List UInt8)} (h : ∀ line ∈ lines, 10 ∉ line) :
    splitLines (lines.flatMap (· ++ [10])) = lines := by
  have hlines := splitLines_flatMap_append h []
  rwa [List.append_nil, show splitLines [] = [] from rfl, List.append_nil] at hlines

/-! ### Reading the lines of a text -/

/-- The text of one line that says `x`, wherever the line stands. -/
structure Spells (text : String) (x : Line) : Prop where
  lineFeed_not_mem : '\n' ∉ text.toList
  readChars_eq : ∀ n, readChars n text.toList = .ok x

theorem toList_toUTF8_join (lines : List String) :
    (String.join (lines.map (· ++ "\n"))).toUTF8.toList =
      (lines.map fun line => utf8 line.toList).flatMap (· ++ [10]) := by
  induction lines with
  | nil => exact toList_toUTF8 ""
  | cons line lines ih =>
      have hfeed : "\n".toUTF8.toList = [10] := (toList_toUTF8 "\n").trans (by decide)
      rw [List.map_cons, String.join_cons, toList_toUTF8_append, toList_toUTF8_append, ih, hfeed,
        toList_toUTF8, List.map_cons, List.flatMap_cons]

theorem readLinesFrom_cons (n : Nat) (line : List UInt8) (lines : List (List UInt8)) :
    readLinesFrom n (line :: lines) = (do
      let x ← readLine n line
      let xs ← readLinesFrom (n + 1) lines
      return x :: xs) := by
  rw [readLinesFrom, List.zipIdx_cons, List.mapM_cons]
  rfl

theorem exists_lines_eq {bytes : List UInt8} {d : Document} (h : read bytes = .ok d) :
    ∃ xs, readLines bytes = .ok xs ∧ d = .ofLines xs := by
  rw [read] at h
  cases hlines : readLines bytes with
  | error e =>
      rw [hlines] at h
      cases h
  | ok xs =>
      rw [hlines] at h
      cases h
      exact ⟨xs, rfl, rfl⟩

theorem readLine_utf8 (n : Nat) (cs : List Char) : readLine n (utf8 cs) = readChars n cs := by
  rw [readLine, decode?_utf8]

theorem readLines_toUTF8 {lines : List String} {xs : List Line} (h : List.Forall₂ Spells lines xs) :
    readLines (String.join (lines.map (· ++ "\n"))).toUTF8.toList = .ok xs := by
  -- the first line has number one, but what is read does not depend on the numbers
  have hread (n : Nat) : readLinesFrom n (lines.map fun line => utf8 line.toList) = .ok xs := by
    induction h generalizing n with
    | nil => rfl
    | cons hline _ ih =>
        rw [List.map_cons, readLinesFrom_cons, readLine_utf8, hline.readChars_eq, ih]
        rfl
  have hfeeds : ∀ bytes ∈ lines.map fun line => utf8 line.toList, 10 ∉ bytes := by
    intro bytes hbytes
    obtain ⟨line, hline, rfl⟩ := List.mem_map.mp hbytes
    have hall : List.Forall₂ (fun line x => '\n' ∉ line.toList ∧ Spells line x) lines xs :=
      h.imp fun _ _ hline => ⟨hline.lineFeed_not_mem, hline⟩
    exact lineFeed_not_mem_utf8 (((List.forall₂_and_left lines xs).mp hall).1 line hline)
  rw [readLines, toList_toUTF8_join, splitLines_flatMap hfeeds, hread]

end Dimacs

end Clausal
