-- What stands in a log file that is kept below a size. Between two events the buffer is empty and
-- the next bytes go to the end of the file, whichever way it was opened. So each event either
-- adds its line to the file or starts the file anew with it, and the file holds the lines of the
-- latest events, whole and in order.
import RegionLayout.Log
import RegionLayout.Proofs.Log.Lines

namespace RegionLayout.Log

variable {w : Writer} {f : File} {es kept : List Event} {e : Event}

/-! ## Writing -/

/-- What is written next goes to the end of the file. -/
def OpenFile.AtEnd (f : OpenFile) : Prop := f.offset = none ∨ f.offset = some f.bytes.length

theorem OpenFile.AtEnd.write {f : OpenFile} (h : f.AtEnd) (data : List UInt8) :
    (f.write data).AtEnd ∧ (f.write data).bytes = f.bytes ++ data := by
  rcases h with h | h <;> simp [AtEnd, OpenFile.write, h]

/-- Nothing waits, and the file is written at its end. -/
structure Writer.Settled (w : Writer) : Prop where
  pending : w.pending = []
  atEnd : w.file.AtEnd

namespace Writer.Settled

/-- With nothing waiting there is nothing to hand on. -/
theorem flush (h : w.Settled) : w.flush = w := by simp [Writer.flush, h.pending]

/-- Bytes that were put in and handed on are all in the file, after what was there. -/
theorem put_flush (h : w.Settled) (data : List UInt8) : (w.put data).flush.Settled ∧
    (w.put data).flush.file.bytes = w.file.bytes ++ data := by
  obtain ⟨hend, hbytes⟩ := h.atEnd.write data
  unfold put
  simp only [h.flush, ite_self]
  simp only [h.pending, List.length_nil, Nat.sub_zero, List.nil_append]
  split
  case isTrue =>
    by_cases hd : data = []
    · have hw : Writer.flush ⟨w.file, data⟩ = ⟨w.file, []⟩ := by simp [Writer.flush, hd]
      rw [hw, hd, List.append_nil]
      exact ⟨⟨rfl, h.atEnd⟩, rfl⟩
    · have hw : Writer.flush ⟨w.file, data⟩ = ⟨w.file.write data, []⟩ := by
        simp [Writer.flush, hd]
      rw [hw]
      exact ⟨⟨rfl, hend⟩, hbytes⟩
  case isFalse hlong =>
    rw [if_pos (Nat.le_of_not_lt hlong)]
    have hs : Settled { file := w.file.write data } := ⟨rfl, hend⟩
    rw [hs.flush]
    exact ⟨hs, hbytes⟩

/-- A file that is opened anew is empty. -/
theorem reopen (h : w.Settled) : w.reopen.Settled ∧ w.reopen.file.bytes = [] := by
  have hw : w.reopen = { file := ⟨[], some 0⟩ } := by simp [Writer.reopen, Writer.flush, h.pending]
  rw [hw]
  exact ⟨⟨rfl, .inr rfl⟩, rfl⟩

end Writer.Settled

/-! ## One event -/

/-- A line that would pass the limit stands alone in the file, and any other is added to it. -/
theorem File.append_bytes (h : f.writer.Settled) (line : String) :
    (f.append line).maxBytes = f.maxBytes ∧ (f.append line).writer.Settled ∧
      (f.append line).bytes = if f.overflows (lineBytes line).length then lineBytes line
        else f.bytes ++ lineBytes line := by
  refine ⟨rfl, ?_⟩
  unfold append bytes
  dsimp only
  split
  case isTrue =>
    obtain ⟨hs, hempty⟩ := h.reopen
    obtain ⟨hs', hbytes⟩ := hs.put_flush (lineBytes line)
    exact ⟨hs', by rw [hbytes, hempty, List.nil_append]⟩
  case isFalse => exact h.put_flush (lineBytes line)

/-! ## Lines read back -/

theorem flatMap_lineBytes (ls : List String) :
    ls.flatMap lineBytes = (String.join (ls.map (· ++ "\n"))).toUTF8.data.toList := by
  induction ls with
  | nil => rfl
  | cons l ls ih => simp [ih, lineBytes]

theorem fromUTF8?_data_toList (s : String) :
    String.fromUTF8? ⟨s.toUTF8.data.toList.toArray⟩ = some s := by
  rw [Array.toArray_toList, String.toUTF8_eq_toByteArray]
  unfold String.fromUTF8?
  rw [dif_pos s.isValidUTF8]
  rfl

theorem join_eq_intercalate (ls : List String) :
    String.join (ls.map (· ++ "\n")) = (String.singleton '\n').intercalate (ls ++ [""]) := by
  induction ls with
  | nil => rfl
  | cons l ls ih =>
    rw [List.cons_append, String.intercalate_cons_of_ne_nil (by simp), ← ih]
    simp only [List.map_cons, String.join_cons]
    rfl

/-- A file of whole lines shows them as they were written. -/
theorem File.lines_eq {ls : List String} (h : f.bytes = ls.flatMap lineBytes)
    (hone : ∀ l ∈ ls, OneLine l) : f.lines = ls := by
  unfold lines
  rw [h, flatMap_lineBytes, fromUTF8?_data_toList, join_eq_intercalate]
  dsimp only
  rw [String.toList_split_intercalate]
  · simp
  · intro l hl
    rcases List.mem_append.1 hl with hl | hl
    · exact hone l hl
    · obtain rfl := List.mem_singleton.1 hl
      simp

/-! ## All events -/

/-- The file stands for the last of some events. All of them are kept where there is no limit, and
the limit is passed only by one line that is too long by itself. -/
structure File.Keeps (f : File) (n : ℕ) (es kept : List Event) : Prop where
  limit : f.maxBytes = n
  settled : f.writer.Settled
  bytes : f.bytes = (kept.map (·.line)).flatMap lineBytes
  suffix : kept <:+ es
  all : n = 0 → kept = es
  fits : 0 < n → f.size ≤ n ∨ ∃ k, kept = [k] ∧ n < (lineBytes k.line).length

namespace File.Keeps

variable {n : ℕ}

theorem new (n : ℕ) : Keeps { maxBytes := n } n [] [] where
  limit := rfl
  settled := ⟨rfl, .inl rfl⟩
  bytes := rfl
  suffix := List.suffix_refl []
  all _ := rfl
  fits _ := .inl (Nat.zero_le _)

/-- One event more is kept, after all that were kept or alone. -/
theorem append (h : f.Keeps n es kept) (e : Event) :
    ∃ before, (f.append e.line).Keeps n (es ++ [e]) (before ++ [e]) := by
  obtain ⟨hlimit, hsettled, hbytes⟩ := f.append_bytes h.settled e.line
  have hsize : (f.append e.line).size = (f.append e.line).bytes.length := rfl
  by_cases ho : f.overflows (lineBytes e.line).length = true
  · rw [if_pos ho] at hbytes
    refine ⟨[], hlimit.trans h.limit, hsettled, by simp [hbytes], ?_, ?_, ?_⟩
    · exact List.suffix_append es [e]
    · rintro rfl
      simp [overflows, h.limit] at ho
    · intro _
      rw [hsize, hbytes]
      exact (Nat.lt_or_ge n _).symm.imp_right fun hlong => ⟨e, rfl, hlong⟩
  · rw [if_neg ho] at hbytes
    refine ⟨kept, hlimit.trans h.limit, hsettled, by simp [hbytes, h.bytes], ?_, ?_, ?_⟩
    · obtain ⟨dropped, rfl⟩ := h.suffix
      exact ⟨dropped, (List.append_assoc ..).symm⟩
    · intro hn
      rw [h.all hn]
    · intro hn
      rw [hsize, hbytes, List.length_append]
      simp only [overflows, h.limit, size] at ho
      grind

end File.Keeps

/-- What is logged to a file that is new. -/
theorem foldl_log (n : ℕ) (es : List Event) :
    ∃ g kept, es.foldl Sink.log (.file { maxBytes := n }) = .file g ∧ g.Keeps n es kept := by
  induction es using List.reverseRecOn with
  | nil => exact ⟨_, [], rfl, .new n⟩
  | append_singleton es e ih =>
    obtain ⟨g, kept, hlog, hg⟩ := ih
    obtain ⟨before, hkeeps⟩ := hg.append e
    exact ⟨g.append e.line, _, by rw [List.foldl_append, hlog]; rfl, hkeeps⟩

/-- After each event a file that was new holds the lines of the latest events: whole lines, in their
order, down to the last, and all of them if it has no limit. Its size is within the limit unless it
holds only the last line, and that alone is longer. -/
theorem file_holds_the_latest_lines (n : ℕ) (es : List Event) (e : Event) :
    ∃ f g dropped kept, File.create true n = .ok f ∧
      (es ++ [e]).foldl Sink.log (.file f) = .file g ∧
      es ++ [e] = dropped ++ kept ∧ kept ≠ [] ∧
      g.bytes = kept.flatMap (fun k => lineBytes k.line) ∧ g.lines = kept.map (·.line) ∧
      (n = 0 → kept = es ++ [e]) ∧
      (0 < n → g.size ≤ n ∨ kept = [e] ∧ n < (lineBytes e.line).length) := by
  obtain ⟨f, kept, hlog, hf⟩ := foldl_log n es
  obtain ⟨before, hg⟩ := hf.append e
  obtain ⟨dropped, hdropped⟩ := hg.suffix
  refine ⟨{ maxBytes := n }, f.append e.line, dropped, before ++ [e], rfl, ?_, hdropped.symm,
    by simp, ?_, ?_, hg.all, fun hn => (hg.fits hn).imp_right ?_⟩
  · rw [List.foldl_append, hlog]
    rfl
  · rw [hg.bytes, List.flatMap_map]
  · refine File.lines_eq hg.bytes fun l hl => ?_
    obtain ⟨k, -, rfl⟩ := List.mem_map.1 hl
    exact k.oneLine
  · rintro ⟨k, hk, hlong⟩
    obtain ⟨rfl, rfl⟩ : before = [] ∧ e = k := by simpa [List.append_eq_singleton_iff] using hk
    exact ⟨rfl, hlong⟩

end RegionLayout.Log
