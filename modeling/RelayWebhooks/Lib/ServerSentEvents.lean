import Mathlib.Data.List.Basic

/-! The event stream format: the events a reader makes of the text of a stream, and the text a
writer sends for a comment or a message. Texts are code points. -/
namespace ServerSentEvents

/-- The lines of a stream after `line`, each ended by LF, CR or CR LF; a LF right after a CR ends
no other line, and what the stream leaves unfinished is no line. -/
def linesFrom (line : List ℕ) (afterCr : Bool) : List ℕ → List (List ℕ)
  | [] => []
  | c :: text =>
    if c = 0x0a then
      if afterCr then linesFrom line false text else line :: linesFrom [] false text
    else if c = 0x0d then line :: linesFrom [] true text
    else linesFrom (line ++ [c]) false text

structure Message where
  type : List ℕ
  data : List ℕ
  lastEventId : List ℕ
  deriving DecidableEq, Repr

/-- The buffers of a reader between two lines. -/
structure Reader where
  type : List ℕ := []
  data : List ℕ := []
  lastEventId : List ℕ := []
  deriving DecidableEq, Repr

def textOf (s : String) : List ℕ := s.toList.map Char.toNat

namespace Reader

/-- A field no reader knows, and `retry`, which only sets the time to a new connection, leave the
buffers alone. -/
def field (r : Reader) (name value : List ℕ) : Reader :=
  if name = textOf "data" then { r with data := r.data ++ value ++ [0x0a] }
  else if name = textOf "event" then { r with type := value }
  else if name = textOf "id" then if 0 ∈ value then r else { r with lastEventId := value }
  else r

/-- The part after the colon, less one space. -/
def fieldValue : List ℕ → List ℕ
  | 0x3a :: 0x20 :: value => value
  | 0x3a :: value => value
  | value => value

/-- A line that starts with a colon is a comment; one without a colon is a name alone. -/
def readLine (r : Reader) (line : List ℕ) : Reader :=
  if line.head? = some 0x3a then r
  else r.field (line.takeWhile (· ≠ 0x3a)) (fieldValue (line.dropWhile (· ≠ 0x3a)))

/-- A blank line sends a message, unless no data was read. -/
def dispatch (r : Reader) : Option Message :=
  if r.data = [] then none
  else some
    { type := if r.type = [] then textOf "message" else r.type
      data := r.data.dropLast
      lastEventId := r.lastEventId }

def messages (r : Reader) : List (List ℕ) → List Message
  | [] => []
  | [] :: lines => r.dispatch.toList ++ messages { lastEventId := r.lastEventId } lines
  | line :: lines => messages (r.readLine line) lines

end Reader

/-- A stream may start with a byte order mark. -/
def dropMark : List ℕ → List ℕ
  | 0xfeff :: text => text
  | text => text

/-- What a reader makes of a stream that has sent `text`. -/
def messages (text : List ℕ) : List Message :=
  Reader.messages {} (linesFrom [] false (dropMark text))

def Unbroken (t : List ℕ) : Prop := 0x0a ∉ t ∧ 0x0d ∉ t

instance (t : List ℕ) : Decidable (Unbroken t) := inferInstanceAs (Decidable (_ ∧ _))

/-- A comment or a message, each a line followed by a blank one. -/
inductive Chunk where
  | comment (t : List ℕ)
  | data (t : List ℕ)
  deriving DecidableEq, Repr

namespace Chunk

def line : Chunk → List ℕ
  | comment t => 0x3a :: t
  | data t => textOf "data: " ++ t

def text (c : Chunk) : List ℕ := c.line ++ [0x0a, 0x0a]

def message? : Chunk → Option Message
  | comment _ => none
  | data t => some { type := textOf "message", data := t, lastEventId := [] }

end Chunk

section
variable {t : List ℕ}

@[simp] theorem unbroken_cons {c : ℕ} : Unbroken (c :: t) ↔ (c ≠ 0x0a ∧ c ≠ 0x0d) ∧ Unbroken t := by
  simp only [Unbroken, List.mem_cons, not_or, ne_eq, @eq_comm _ c]
  tauto

@[simp] theorem unbroken_append {u : List ℕ} : Unbroken (t ++ u) ↔ Unbroken t ∧ Unbroken u := by
  simp only [Unbroken, List.mem_append, not_or]
  tauto

theorem linesFrom_append (h : Unbroken t) (line text : List ℕ) :
    linesFrom line false (t ++ text) = linesFrom (line ++ t) false text := by
  induction t generalizing line with
  | nil => simp
  | cons c t ih =>
    obtain ⟨⟨hlf, hcr⟩, ht⟩ := unbroken_cons.mp h
    simp [linesFrom, hlf, hcr, ih ht]

/-- A chunk is two lines of the stream. -/
theorem linesFrom_chunk {c : Chunk} (h : Unbroken c.line) (text : List ℕ) :
    linesFrom [] false (c.text ++ text) = c.line :: [] :: linesFrom [] false text := by
  rw [Chunk.text, List.append_assoc, linesFrom_append h]
  simp [linesFrom]

theorem readLine_comment (r : Reader) : r.readLine (Chunk.comment t).line = r := by
  simp [Reader.readLine, Chunk.line]

theorem readLine_data (r : Reader) :
    r.readLine (Chunk.data t).line = { r with data := r.data ++ t ++ [0x0a] } := by
  have hline : (Chunk.data t).line = 0x64 :: 0x61 :: 0x74 :: 0x61 :: 0x3a :: 0x20 :: t := rfl
  have hname : ([0x64, 0x61, 0x74, 0x61] : List ℕ) = textOf "data" := rfl
  simp [hline, hname, Reader.readLine, Reader.fieldValue, Reader.field]

theorem messages_chunk (c : Chunk) (lines : List (List ℕ)) :
    Reader.messages {} (c.line :: [] :: lines) = c.message?.toList ++ Reader.messages {} lines := by
  cases c with
  | comment t =>
    have hblank : Reader.messages {} ((Chunk.comment t).line :: [] :: lines) =
        Reader.messages (({} : Reader).readLine (Chunk.comment t).line) ([] :: lines) := rfl
    rw [hblank, readLine_comment]
    rfl
  | data t =>
    have hblank : Reader.messages {} ((Chunk.data t).line :: [] :: lines) =
        Reader.messages (({} : Reader).readLine (Chunk.data t).line) ([] :: lines) := rfl
    rw [hblank, readLine_data]
    simp [Reader.messages, Reader.dispatch, Chunk.message?]

end

theorem dropMark_chunks (chunks : List Chunk) :
    dropMark (chunks.flatMap Chunk.text) = chunks.flatMap Chunk.text := by
  cases chunks with
  | nil => rfl
  | cons c cs => cases c <;> rfl

/-- A reader gets the message of every data chunk of a stream, in order, and nothing else. -/
theorem messages_chunks (chunks : List Chunk) (h : ∀ c ∈ chunks, Unbroken c.line) :
    messages (chunks.flatMap Chunk.text) = chunks.filterMap Chunk.message? := by
  rw [messages, dropMark_chunks]
  induction chunks with
  | nil => rfl
  | cons c cs ih =>
    obtain ⟨hc, hcs⟩ := List.forall_mem_cons.mp h
    rw [List.flatMap_cons, linesFrom_chunk hc, messages_chunk, ih hcs]
    cases c <;> rfl

end ServerSentEvents
