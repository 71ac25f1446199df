import Mathlib.Data.List.Infix
import CultureNodes.Notifier.Daemon

/-!
The bytes of the stream. The server writes each event as three labelled lines and a blank one, and a comment to
keep an idle connection; the daemon scans them line by line, and gives up at a line that does not fit its buffer.
A connection that breaks leaves it with a part of what was written.
-/

namespace CultureNodes.Notifier

def newline : UInt8 := 10

def carriageReturn : UInt8 := 13

def utf8 (text : String) : List UInt8 := text.toList.flatMap String.utf8EncodeChar

/-- One parsed event of the stream. -/
structure Frame where
  id : List UInt8 := []
  type : List UInt8 := []
  data : List UInt8 := []
deriving DecidableEq, Repr

def line (label : String) (value : List UInt8) : List UInt8 := utf8 label ++ value

/-- Lines, and the blank line that ends them. -/
def block (lines : List (List UInt8)) : List UInt8 := lines.flatMap (fun line => line ++ [newline]) ++ [newline]

/-- What the server writes at a time. -/
inductive Chunk where
  | event (row : Event)
  | keepalive
deriving DecidableEq, Repr

section

variable (marshal : Event → List UInt8)

def frameOf (row : Event) : Frame where
  id := utf8 row.id
  type := utf8 row.type
  data := marshal row

def Chunk.lines : Chunk → List (List UInt8)
  | .event row => [line "id: " (utf8 row.id), line "event: " (utf8 row.type), line "data: " (marshal row)]
  | .keepalive => [utf8 ": keepalive"]

def stream (chunks : List Chunk) : List UInt8 := chunks.flatMap fun chunk => block (chunk.lines marshal)

def frames (chunks : List Chunk) : List Frame :=
  chunks.flatMap fun chunk => match chunk with
    | .event row => [frameOf marshal row]
    | .keepalive => []

end

def dropCR (line : List UInt8) : List UInt8 := if line.getLast? = some carriageReturn then line.dropLast else line

/-- The size of the buffer, which has to hold a line and its end. -/
def maxTokenSize : Nat := 4 * 1024 * 1024

/-- The lines of a text, after the bytes of the line that has begun. The last line needs no end, but is not there
where it is empty; nothing is scanned from a line on that fills the buffer. -/
def scanFrom (begun : List UInt8) : List UInt8 → List (List UInt8)
  | [] => if begun = [] then [] else [dropCR begun]
  | byte :: rest =>
      if byte = newline then dropCR begun :: scanFrom [] rest
      else if maxTokenSize ≤ begun.length + 1 then []
      else scanFrom (begun ++ [byte]) rest

/-- What follows a label at the beginning of a line. -/
def labelled (label : String) (line : List UInt8) : Option (List UInt8) :=
  if (utf8 label).isPrefixOf line then some (line.drop (utf8 label).length) else none

structure Reader where
  current : Frame := {}
  haveFrame : Bool := false
  handled : List Frame := []
deriving DecidableEq, Repr

def Reader.line (reader : Reader) (line : List UInt8) : Reader :=
  match labelled "id: " line with
  | some value => { reader with current := { reader.current with id := value }, haveFrame := true }
  | none =>
      match labelled "event: " line with
      | some value => { reader with current := { reader.current with type := value }, haveFrame := true }
      | none =>
          match labelled "data: " line with
          | some value => { reader with current := { reader.current with data := value }, haveFrame := true }
          | none =>
              if line = [] ∧ reader.haveFrame then { handled := reader.handled ++ [reader.current] } else reader

/-- The frames of a text, in order. -/
def readFrames (text : List UInt8) : List Frame := ((scanFrom [] text).foldl Reader.line {}).handled

/-- No line of the chunk fills the buffer. -/
def Chunk.fits (marshal : Event → List UInt8) (chunk : Chunk) : Bool :=
  (chunk.lines marshal).all fun line => line.length < maxTokenSize

variable {lines : List (List UInt8)} {text rest : List UInt8}

/-- A line of text: it is not empty and has no line break or carriage return in it. -/
structure Solid (line : List UInt8) : Prop where
  unbroken : newline ∉ line
  unreturned : carriageReturn ∉ line
  nonempty : line ≠ []

theorem scanFrom_append {begun line : List UInt8} (plain : newline ∉ line)
    (short : begun.length + line.length < maxTokenSize) :
    scanFrom begun (line ++ rest) = scanFrom (begun ++ line) rest := by
  induction line generalizing begun with
  | nil => rw [List.append_nil, List.nil_append]
  | cons byte more ih =>
      rw [List.mem_cons, not_or] at plain
      rw [List.length_cons] at short
      rw [List.cons_append, scanFrom, if_neg (Ne.symm plain.1), if_neg (by omega),
        ih plain.2 (by rw [List.length_append, List.length_singleton]; omega), List.append_assoc, List.singleton_append]

/-- Scanning ends in a line that fills the buffer. -/
theorem scanFrom_full {begun line : List UInt8} (plain : newline ∉ line) (room : begun.length < maxTokenSize)
    (full : maxTokenSize ≤ begun.length + line.length) : scanFrom begun (line ++ rest) = [] := by
  induction line generalizing begun with
  | nil =>
      rw [List.length_nil] at full
      omega
  | cons byte more ih =>
      rw [List.mem_cons, not_or] at plain
      rw [List.length_cons] at full
      rw [List.cons_append, scanFrom, if_neg (Ne.symm plain.1)]
      split
      · rfl
      · rename_i fits
        exact ih plain.2 (by rw [List.length_append, List.length_singleton]; omega)
          (by rw [List.length_append, List.length_singleton]; omega)

theorem scanFrom_line {line : List UInt8} (plain : newline ∉ line) (short : line.length < maxTokenSize) :
    scanFrom [] (line ++ newline :: rest) = dropCR line :: scanFrom [] rest := by
  rw [scanFrom_append plain (by rwa [List.length_nil, Nat.zero_add]), List.nil_append, scanFrom, if_pos rfl]

theorem dropCR_of_unreturned {line : List UInt8} (unreturned : carriageReturn ∉ line) : dropCR line = line :=
  if_neg fun ends => unreturned (List.mem_of_getLast? ends)

theorem scanFrom_part {line part : List UInt8} (solid : Solid line) (begins : part <+: line) :
    [] ∉ scanFrom [] part := by
  have plain : newline ∉ part := fun breaks => solid.unbroken (begins.subset breaks)
  rw [← List.append_nil part]
  by_cases short : part.length < maxTokenSize
  · rw [scanFrom_append plain (by rwa [List.length_nil, Nat.zero_add]), List.nil_append, scanFrom]
    split
    · exact List.not_mem_nil
    · rename_i nonempty
      rw [dropCR_of_unreturned fun returns => solid.unreturned (begins.subset returns), List.mem_singleton]
      exact Ne.symm nonempty
  · rw [scanFrom_full plain (by decide) (by rw [List.length_nil, Nat.zero_add]; exact Nat.le_of_not_lt short)]
    exact List.not_mem_nil

theorem block_cons {line : List UInt8} : block (line :: lines) = line ++ newline :: block lines := by
  simp [block]

theorem scanFrom_block (solid : ∀ line ∈ lines, Solid line) (short : ∀ line ∈ lines, line.length < maxTokenSize) :
    scanFrom [] (block lines ++ rest) = lines ++ [] :: scanFrom [] rest := by
  induction lines with
  | nil => exact @scanFrom_line rest [] List.not_mem_nil (by decide)
  | cons line more ih =>
      rw [List.forall_mem_cons] at solid short
      rw [block_cons, List.append_assoc, List.cons_append, scanFrom_line solid.1.unbroken short.1,
        dropCR_of_unreturned solid.1.unreturned, ih solid.2 short.2, List.cons_append]

theorem part_append {first second : List UInt8} (part : text <+: first ++ second) :
    text <+: first ∧ text ≠ first ∨ ∃ tail, text = first ++ tail ∧ tail <+: second := by
  rcases List.prefix_or_prefix_of_prefix part (List.prefix_append first second) with within | beyond
  · by_cases whole : text = first
    · exact Or.inr ⟨[], by rw [whole, List.append_nil], List.nil_prefix⟩
    · exact Or.inl ⟨within, whole⟩
  · obtain ⟨tail, rfl⟩ := beyond
    exact Or.inr ⟨tail, rfl, (List.prefix_append_right_inj first).mp part⟩

/-- Of a block that is cut, or has a line that fills the buffer, no blank line is scanned. -/
theorem scanFrom_unblank (solid : ∀ line ∈ lines, Solid line) (part : text <+: block lines ++ rest)
    (stops : (text <+: block lines ∧ text ≠ block lines) ∨ ∃ line ∈ lines, maxTokenSize ≤ line.length) :
    [] ∉ scanFrom [] text := by
  induction lines generalizing text with
  | nil =>
      rcases stops with ⟨within, cut⟩ | ⟨line, absent, _⟩
      · have nothing : text = [] := by
          rcases List.prefix_cons_iff.mp within with rfl | ⟨tail, rfl, nil⟩
          · rfl
          · exact absurd (List.prefix_nil.mp nil ▸ rfl) cut
        rw [nothing]
        exact List.not_mem_nil
      · exact absurd absent List.not_mem_nil
  | cons line more ih =>
      rw [List.forall_mem_cons] at solid
      rw [block_cons, List.append_assoc] at part
      rcases part_append part with ⟨within, _⟩ | ⟨tail, rfl, onward⟩
      · exact scanFrom_part solid.1 within
      · by_cases short : line.length < maxTokenSize
        · cases tail with
          | nil =>
              rw [List.append_nil]
              exact scanFrom_part solid.1 List.prefix_rfl
          | cons byte tail =>
              obtain ⟨rfl, later⟩ := List.cons_prefix_cons.mp onward
              rw [scanFrom_line solid.1.unbroken short, dropCR_of_unreturned solid.1.unreturned, List.mem_cons, not_or]
              refine ⟨solid.1.nonempty.symm, ih solid.2 later ?_⟩
              rcases stops with ⟨within, cut⟩ | ⟨long, held, fills⟩
              · rw [block_cons] at within cut
                refine Or.inl ⟨(List.cons_prefix_cons.mp ((List.prefix_append_right_inj line).mp within)).2, ?_⟩
                rintro rfl
                exact cut rfl
              · rcases List.mem_cons.mp held with rfl | inMore
                · omega
                · exact Or.inr ⟨long, inMore, fills⟩
        · rw [scanFrom_full solid.1.unbroken (by decide)
            (by rw [List.length_nil, Nat.zero_add]; exact Nat.le_of_not_lt short)]
          exact List.not_mem_nil

theorem utf8_id : utf8 "id: " = [105, 100, 58, 32] := by decide +kernel

theorem utf8_event : utf8 "event: " = [101, 118, 101, 110, 116, 58, 32] := by decide +kernel

theorem utf8_data : utf8 "data: " = [100, 97, 116, 97, 58, 32] := by decide +kernel

theorem utf8_keepalive : utf8 ": keepalive" = [58, 32, 107, 101, 101, 112, 97, 108, 105, 118, 101] := by decide +kernel

theorem labelled_line (label : String) (value : List UInt8) : labelled label (line label value) = some value := by
  simp [labelled, line]

theorem Reader.line_handled {reader : Reader} {line : List UInt8} (nonempty : line ≠ []) :
    (reader.line line).handled = reader.handled := by
  unfold Reader.line
  split
  · rfl
  · split
    · rfl
    · split
      · rfl
      · rw [if_neg fun blank => nonempty blank.1]

theorem handled_of_unblank {reader : Reader} (unblank : [] ∉ lines) :
    (lines.foldl Reader.line reader).handled = reader.handled := by
  induction lines generalizing reader with
  | nil => rfl
  | cons line more ih =>
      rw [List.mem_cons, not_or] at unblank
      rw [List.foldl_cons, ih unblank.2, Reader.line_handled (Ne.symm unblank.1)]

variable {marshal : Event → List UInt8}

theorem Reader.line_blank {reader : Reader} :
    reader.line [] = if reader.haveFrame then { handled := reader.handled ++ [reader.current] } else reader := by
  simp [Reader.line, labelled, utf8_id, utf8_event, utf8_data]

theorem read_chunk (chunk : Chunk) (handled : List Frame) :
    ((chunk.lines marshal ++ [[]]).foldl Reader.line { handled := handled }) =
      { handled := handled ++ frames marshal [chunk] } := by
  cases chunk with
  | keepalive =>
      have ignored : Reader.line { handled := handled } (utf8 ": keepalive") = { handled := handled } := by
        simp [Reader.line, labelled, utf8_id, utf8_event, utf8_data, utf8_keepalive]
      show Reader.line (Reader.line { handled := handled } (utf8 ": keepalive")) [] = _
      rw [ignored, Reader.line_blank]
      simp [frames]
  | event row =>
      have idEvent : labelled "id: " (line "event: " (utf8 row.type)) = none := by
        simp [labelled, line, utf8_id, utf8_event]
      have idData : labelled "id: " (line "data: " (marshal row)) = none := by
        simp [labelled, line, utf8_id, utf8_data]
      have eventData : labelled "event: " (line "data: " (marshal row)) = none := by
        simp [labelled, line, utf8_event, utf8_data]
      have atID : Reader.line { handled := handled } (line "id: " (utf8 row.id)) =
          { current := { id := utf8 row.id }, haveFrame := true, handled := handled } := by
        rw [Reader.line, labelled_line]
      have atType : Reader.line { current := { id := utf8 row.id }, haveFrame := true, handled := handled }
          (line "event: " (utf8 row.type)) =
          { current := { id := utf8 row.id, type := utf8 row.type }, haveFrame := true, handled := handled } := by
        rw [Reader.line, idEvent, labelled_line]
      have atData : Reader.line
          { current := { id := utf8 row.id, type := utf8 row.type }, haveFrame := true, handled := handled }
          (line "data: " (marshal row)) =
          { current := frameOf marshal row, haveFrame := true, handled := handled } := by
        rw [Reader.line, idData, eventData, labelled_line]
        rfl
      simp [Chunk.lines, frames, atID, atType, atData, Reader.line_blank]

/-- What the server writes holds no line break or carriage return: an id and a type of an event, and what the
encoder of JSON makes of it. -/
structure Clean (marshal : Event → List UInt8) (row : Event) : Prop where
  id : newline ∉ utf8 row.id ∧ carriageReturn ∉ utf8 row.id
  type : newline ∉ utf8 row.type ∧ carriageReturn ∉ utf8 row.type
  data : newline ∉ marshal row ∧ carriageReturn ∉ marshal row

theorem solid_line {label : String} {value : List UInt8} (solid : Solid (utf8 label))
    (plain : newline ∉ value ∧ carriageReturn ∉ value) : Solid (line label value) where
  unbroken := by
    rw [line, List.mem_append, not_or]
    exact ⟨solid.unbroken, plain.1⟩
  unreturned := by
    rw [line, List.mem_append, not_or]
    exact ⟨solid.unreturned, plain.2⟩
  nonempty := List.append_ne_nil_of_left_ne_nil solid.nonempty value

theorem Chunk.solid {chunk : Chunk} (clean : ∀ row, chunk = .event row → Clean marshal row) :
    ∀ line ∈ chunk.lines marshal, Solid line := by
  cases chunk with
  | keepalive =>
      simp only [Chunk.lines, List.mem_singleton, forall_eq, utf8_keepalive]
      constructor <;> decide
  | event row =>
      have here := clean row rfl
      simp only [Chunk.lines, List.mem_cons, List.not_mem_nil, or_false, forall_eq_or_imp, forall_eq]
      refine ⟨solid_line ?_ here.id, solid_line ?_ here.type, solid_line ?_ here.data⟩
      · rw [utf8_id]
        constructor <;> decide
      · rw [utf8_event]
        constructor <;> decide
      · rw [utf8_data]
        constructor <;> decide

theorem reads_of_part {chunks : List Chunk} {handled : List Frame}
    (clean : ∀ row, .event row ∈ chunks → Clean marshal row) (part : text <+: stream marshal chunks) :
    ∃ taken rest, chunks = taken ++ rest ∧
      ((scanFrom [] text).foldl Reader.line { handled := handled }).handled = handled ++ frames marshal taken ∧
      stream marshal taken <+: text ∧ (∀ chunk ∈ taken, chunk.fits marshal = true) ∧
      ∀ next more, rest = next :: more → next.fits marshal = true → ¬stream marshal (taken ++ [next]) <+: text := by
  induction chunks generalizing text handled with
  | nil =>
      obtain rfl := List.prefix_nil.mp part
      exact ⟨[], [], rfl, by simp [scanFrom, frames], List.prefix_rfl, fun _ absent => absurd absent List.not_mem_nil,
        fun next more absent => by simp at absent⟩
  | cons chunk more ih =>
      have solid := Chunk.solid fun row isRow => clean row (isRow ▸ List.mem_cons_self)
      rw [stream, List.flatMap_cons] at part
      -- Nothing of this chunk is handled: it is cut, or a line of it fills the buffer.
      have stopped (stops : (text <+: block (chunk.lines marshal) ∧ text ≠ block (chunk.lines marshal)) ∨
          ∃ line ∈ chunk.lines marshal, maxTokenSize ≤ line.length) :
          ((scanFrom [] text).foldl Reader.line { handled := handled }).handled = handled ++ frames marshal [] := by
        rw [handled_of_unblank (scanFrom_unblank solid part stops)]
        simp [frames]
      have unread : (chunk.fits marshal = true → ¬block (chunk.lines marshal) <+: text) →
          ∀ next others, chunk :: more = next :: others → next.fits marshal = true →
            ¬stream marshal ([] ++ [next]) <+: text := by
        intro short next others isRest
        obtain ⟨rfl, rfl⟩ := List.cons.inj isRest
        rw [List.nil_append, stream, List.flatMap_singleton]
        exact short
      rcases part_append part with ⟨within, cut⟩ | ⟨tail, rfl, onward⟩
      · refine ⟨[], chunk :: more, rfl, stopped (Or.inl ⟨within, cut⟩), List.nil_prefix,
          fun _ absent => absurd absent List.not_mem_nil, unread fun _ beyond => ?_⟩
        exact cut (within.eq_of_length_le beyond.length_le)
      · cases fits : chunk.fits marshal with
        | false =>
            refine ⟨[], chunk :: more, rfl, stopped (Or.inr ?_), List.nil_prefix,
              fun _ absent => absurd absent List.not_mem_nil, unread fun isTrue => ?_⟩
            · simpa [Chunk.fits] using fits
            · rw [fits] at isTrue
              contradiction
        | true =>
            have short : ∀ line ∈ chunk.lines marshal, line.length < maxTokenSize := by simpa [Chunk.fits] using fits
            obtain ⟨taken, rest, isMore, handledAll, reached, allFit, ends⟩ :=
              @ih tail (handled ++ frames marshal [chunk])
                (fun row isRow => clean row (List.mem_cons_of_mem _ isRow)) onward
            refine ⟨chunk :: taken, rest, by rw [isMore, List.cons_append], ?_, ?_,
              List.forall_mem_cons.mpr ⟨fits, allFit⟩, ?_⟩
            · have split : chunk.lines marshal ++ [] :: scanFrom [] tail =
                  (chunk.lines marshal ++ [[]]) ++ scanFrom [] tail := by simp
              rw [scanFrom_block solid short, split, List.foldl_append, read_chunk, handledAll]
              simp [frames]
            · rw [stream, List.flatMap_cons]
              exact (List.prefix_append_right_inj _).mpr reached
            · intro next others isRest nextFits beyond
              rw [List.cons_append, stream, List.flatMap_cons] at beyond
              exact ends next others isRest nextFits ((List.prefix_append_right_inj _).mp beyond)

/-- Of a stream that breaks anywhere the daemon handles the events that were written whole, up to the first with a
line that fills its buffer, their frames as they were written and in order, and nothing of the event where it
broke or gave up. -/
theorem reads_whole_frames {chunks : List Chunk} (clean : ∀ row, .event row ∈ chunks → Clean marshal row)
    (part : text <+: stream marshal chunks) :
    ∃ taken rest, chunks = taken ++ rest ∧ readFrames text = frames marshal taken ∧
      stream marshal taken <+: text ∧ (∀ chunk ∈ taken, chunk.fits marshal = true) ∧
      ∀ next more, rest = next :: more → next.fits marshal = true → ¬stream marshal (taken ++ [next]) <+: text := by
  obtain ⟨taken, rest, isChunks, handled, stops⟩ := @reads_of_part text marshal chunks [] clean part
  exact ⟨taken, rest, isChunks, handled, stops⟩

/-- The envelope of an event without content, as the encoder writes it. -/
def envelopeText (row : Event) : List UInt8 :=
  utf8 "\x7b\"id\":\"" ++ utf8 row.id ++ utf8 "\",\"source\":\"engine\",\"specversion\":\"1.0\",\"type\":\"" ++
    utf8 row.type ++ utf8 "\",\"subject\":\"" ++ utf8 row.runID ++
    utf8 "\",\"time\":\"2026-08-13T00:00:00Z\",\"datacontenttype\":\"application/json\",\"data\":\x7b\x7d\x7d"

/-- Two events and a keepalive between them. -/
def written : List Chunk := [.event (created "01A" "r1"), .keepalive, .event (created "01B" "r2")]

/-- The stream breaks in the last byte of the second event, which is not handed over. -/
theorem reads_whole_frames_of_broken : ∃ taken rest, written = taken ++ rest ∧ rest ≠ [] ∧
    readFrames (stream envelopeText written).dropLast = frames envelopeText taken := by
  have clean : ∀ id runID, (newline ∉ utf8 id ∧ carriageReturn ∉ utf8 id) →
      (newline ∉ utf8 runID ∧ carriageReturn ∉ utf8 runID) → Clean envelopeText (created id runID) := by
    intro id runID plainID plainRun
    have plainType : newline ∉ utf8 "dev.culture.nodes.run.created" ∧
        carriageReturn ∉ utf8 "dev.culture.nodes.run.created" := by decide +kernel
    refine ⟨plainID, plainType, ?_⟩
    simp only [envelopeText, List.mem_append, not_or]
    refine ⟨⟨⟨⟨⟨⟨⟨?_, plainID.1⟩, ?_⟩, plainType.1⟩, ?_⟩, plainRun.1⟩, ?_⟩,
      ⟨⟨⟨⟨⟨⟨?_, plainID.2⟩, ?_⟩, plainType.2⟩, ?_⟩, plainRun.2⟩, ?_⟩⟩ <;> decide +kernel
  have allClean : ∀ row, .event row ∈ written → Clean envelopeText row := by
    intro row isRow
    simp only [written, List.mem_cons, Chunk.event.injEq, reduceCtorEq, List.not_mem_nil, or_false, false_or] at isRow
    rcases isRow with rfl | rfl
    · exact clean _ _ (by decide +kernel) (by decide +kernel)
    · exact clean _ _ (by decide +kernel) (by decide +kernel)
  obtain ⟨taken, rest, isChunks, handled, whole, _⟩ := reads_whole_frames allClean ( List.dropLast_prefix _)
  refine ⟨taken, rest, isChunks, ?_, handled⟩
  rintro rfl
  have nonempty : 0 < (stream envelopeText written).length := by
    simp only [written, stream, block, List.flatMap_cons, List.length_append, List.length_singleton]
    omega
  have shorter := whole.length_le
  rw [List.append_nil] at isChunks
  rw [← isChunks, List.length_dropLast] at shorter
  omega

end CultureNodes.Notifier
