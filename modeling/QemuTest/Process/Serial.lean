import QemuTest.Lib.Lines
import QemuTest.Lib.Utf8

/-!
# Process — Serial

The serial side of `process.rs`: `readChunk` and `pollLineMatchTimeout` over
a log file that grows while it is read.

The world enters through a list of ticks, one per loop iteration: the state
of the shutdown flag, the elapsed time, and what the read met (how many
bytes of the log existed when it ran dry, and an error instead of the end of
file, if any). A tick list that ends first leaves the call running.
-/

namespace QemuTest

open Text Lines Utf8

/-! ## Reading -/

inductive ErrorKind where
  | WouldBlock
  | TimedOut
  | Other (e : Str)
  deriving DecidableEq, Repr

/-- What one `read_until` meets. -/
structure ReadEvent where
  visible : Nat
  error : Option ErrorKind
  deriving DecidableEq, Repr

/-- The buffered reader: the bytes written to the log over the whole run, and
how many of them have been consumed. -/
structure SerialReader where
  log : List UInt8
  pos : Nat
  deriving DecidableEq, Repr

def SerialReader.new (log : List UInt8) : SerialReader := ⟨log, 0⟩

def newline : UInt8 := 0x0A

/-- `BufRead::read_until(b'\n', &mut buf)` on an empty `buf`: up to the
delimiter, else everything visible, which stays consumed also when the read
then ends in an error. -/
def SerialReader.readUntil (r : SerialReader) (ev : ReadEvent) :
    Except ErrorKind (List UInt8) × SerialReader :=
  let avail := (r.log.take ev.visible).drop r.pos
  match cutLine newline avail with
  | some (buf, _) => (.ok buf, { r with pos := r.pos + buf.length })
  | none =>
      let r' := { r with pos := r.pos + avail.length }
      match ev.error with
      | none => (.ok avail, r')
      | some e => (.error e, r')

inductive ChunkResult where
  | Line (line : Str)
  | Progress
  | NoProgress
  deriving DecidableEq, Repr

/-- `read_chunk`. `pending` is the caller's buffer of an unfinished line; it
is returned updated. -/
def readChunk (r : SerialReader) (pending : List UInt8) (ev : ReadEvent) :
    Except Str ChunkResult × List UInt8 × SerialReader :=
  match r.readUntil ev with
  | (.ok [], r') => (.ok .NoProgress, pending, r')
  | (.ok buf, r') =>
      let pending := pending ++ buf
      if pending.getLast? ≠ some newline then (.ok .Progress, pending, r')
      else (.ok (.Line (fromUtf8Lossy pending)), [], r')
  | (.error .WouldBlock, r') => (.ok .NoProgress, pending, r')
  | (.error .TimedOut, r') => (.ok .NoProgress, pending, r')
  | (.error (.Other e), r') => (.error (lit "serial file read error: " ++ e), pending, r')

/-! ## Polling -/

/-- What a line is compared with; a pattern is its compiled `is_match`. -/
inductive ExpectedOutput where
  | SubString (s : Str)
  | Pattern (is_match : Str → Bool)

def ExpectedOutput.«matches» : ExpectedOutput → Str → Bool
  | .SubString s, line => contains line s
  | .Pattern r, line => r line

/-- One iteration of the polling loop, as the world shows it. -/
structure Tick where
  shutdown : Bool
  elapsed : Nat
  read : ReadEvent
  deriving DecidableEq, Repr

inductive PollResult where
  | Ok (line : Str)
  | Err (msg : Str)
  | running
  deriving DecidableEq, Repr

/-- A call's outcome: its result, the lines it handed to the matcher in
order, and the reader it leaves behind. -/
structure PollRun where
  result : PollResult
  handed : List Str
  reader : SerialReader
  deriving DecidableEq, Repr

def PollRun.hand (line : Str) (run : PollRun) : PollRun :=
  { run with handed := line :: run.handed }

/-- The loop of `poll_line_match_timeout`. -/
def pollLoop (expected : ExpectedOutput) (timeout : Nat) :
    List Tick → SerialReader → List UInt8 → PollRun
  | [], r, _ => ⟨.running, [], r⟩
  | t :: ts, r, pending =>
      if t.shutdown then ⟨.Err (lit "interrupted"), [], r⟩
      else if timeout < t.elapsed then
        ⟨.Err (lit "timeout waiting for expected output"), [], r⟩
      else
        match readChunk r pending t.read with
        | (.error e, _, r') => ⟨.Err e, [], r'⟩
        | (.ok (.Line line), pending', r') =>
            if expected.matches line then ⟨.Ok line, [line], r'⟩
            else (pollLoop expected timeout ts r' pending').hand line
        | (.ok .Progress, pending', r') => pollLoop expected timeout ts r' pending'
        | (.ok .NoProgress, pending', r') => pollLoop expected timeout ts r' pending'

/-- `poll_line_match_timeout`: the buffer of the unfinished line is created
afresh for each call. -/
def pollLineMatchTimeout (expected : ExpectedOutput) (timeout : Nat)
    (ticks : List Tick) (r : SerialReader) : PollRun :=
  pollLoop expected timeout ticks r []

/-- One call, with the ticks it sees. -/
structure PollCall where
  expected : ExpectedOutput
  timeout : Nat
  ticks : List Tick

/-- A sequence of calls on one process. -/
def pollCalls : List PollCall → SerialReader → List PollRun
  | [], _ => []
  | c :: cs, r =>
      let run := pollLineMatchTimeout c.expected c.timeout c.ticks r
      run :: pollCalls cs run.reader

/-! ## The lines of the log -/

/-- The newline-terminated segments of a byte stream, decoded as whole
lines. -/
def serialLines (log : List UInt8) : List Str :=
  (lines newline log).map fromUtf8Lossy

/-- The bytes from the last line end on: the unfinished line and everything
not consumed yet. -/
def SerialReader.ahead (r : SerialReader) (pending : List UInt8) : List UInt8 :=
  pending ++ r.log.drop r.pos

/-- A read without error takes the front of the unconsumed log: either a
whole line, or bytes that hold no line end. -/
theorem readUntil_spec (r : SerialReader) {ev : ReadEvent} (h : ev.error = none) :
    ∃ buf, r.readUntil ev = (.ok buf, { r with pos := r.pos + buf.length }) ∧
      r.log.drop r.pos = buf ++ r.log.drop (r.pos + buf.length) ∧
      (newline ∉ buf ∨ ∃ l₀, buf = l₀ ++ [newline] ∧ newline ∉ l₀) := by
  have havail : (r.log.take ev.visible).drop r.pos
      = (r.log.drop r.pos).take (ev.visible - r.pos) := List.drop_take
  have hfront : ∀ buf rest, (r.log.take ev.visible).drop r.pos = buf ++ rest →
      r.log.drop r.pos = buf ++ r.log.drop (r.pos + buf.length) := by
    intro buf rest heq
    have hpre : buf <+: r.log.drop r.pos :=
      (List.prefix_append buf rest).trans (heq ▸ havail ▸ List.take_prefix _ _)
    rw [← List.drop_drop]
    obtain ⟨t, ht⟩ := hpre
    rw [← ht, List.drop_left]
  cases hcut : cutLine newline ((r.log.take ev.visible).drop r.pos) with
  | none =>
      refine ⟨_, by simp only [SerialReader.readUntil, hcut, h], ?_,
        .inl (cutLine_eq_none hcut)⟩
      exact hfront _ [] (by simp)
  | some p =>
      obtain ⟨buf, rest⟩ := p
      obtain ⟨heq, hline⟩ := cutLine_eq_some hcut
      exact ⟨buf, by simp only [SerialReader.readUntil, hcut], hfront buf rest heq,
        .inr hline⟩

/-- **What one chunk does**, without read errors: it completes the first line
ahead, or moves bytes into the unfinished line and leaves what is ahead
unchanged. -/
theorem readChunk_spec (r : SerialReader) {pending : List UInt8}
    (hp : newline ∉ pending) {ev : ReadEvent} (h : ev.error = none) :
    (∃ l₀ r', readChunk r pending ev
        = (.ok (.Line (fromUtf8Lossy (l₀ ++ [newline]))), [], r') ∧
      newline ∉ l₀ ∧ r'.log = r.log ∧
      r.ahead pending = l₀ ++ newline :: r'.ahead []) ∨
    (∃ out pending' r', readChunk r pending ev = (.ok out, pending', r') ∧
      (out = .Progress ∨ out = .NoProgress) ∧ newline ∉ pending' ∧
      r'.log = r.log ∧ r'.ahead pending' = r.ahead pending) := by
  obtain ⟨buf, hread, hfront, hbuf⟩ := readUntil_spec r h
  rcases hbuf with hnot | ⟨l₀, rfl, hnot⟩
  · -- no line end: the bytes join the unfinished line
    right
    cases buf with
    | nil =>
        exact ⟨.NoProgress, pending, { r with pos := r.pos + 0 },
          by simp [readChunk, hread], .inr rfl, hp, rfl, rfl⟩
    | cons b bs =>
        have hl : (pending ++ b :: bs).getLast? ≠ some newline := by
          rw [List.getLast?_append_of_ne_nil _ (by simp)]
          exact fun heq => hnot (List.mem_of_getLast? heq)
        refine ⟨.Progress, pending ++ b :: bs,
          { r with pos := r.pos + (b :: bs).length }, ?_, .inl rfl, ?_, rfl, ?_⟩
        · simp only [readChunk, hread, if_pos hl]
        · rw [List.mem_append, not_or]
          exact ⟨hp, hnot⟩
        · simp only [SerialReader.ahead, List.append_assoc]
          rw [← hfront]
  · -- a line end: the unfinished line is completed and handed on whole
    left
    have hl : ¬ (pending ++ (l₀ ++ [newline])).getLast? ≠ some newline := by simp
    have hchunk : readChunk r pending ev
        = (.ok (.Line (fromUtf8Lossy (pending ++ (l₀ ++ [newline])))), [],
          { r with pos := r.pos + (l₀ ++ [newline]).length }) := by
      cases hb : l₀ ++ [newline] with
      | nil => simp at hb
      | cons b bs =>
          rw [hb] at hread hl
          simp only [readChunk, hread, if_neg hl]
    refine ⟨pending ++ l₀, { r with pos := r.pos + (l₀ ++ [newline]).length },
      ?_, ?_, rfl, ?_⟩
    · rw [hchunk, List.append_assoc]
    · rw [List.mem_append, not_or]
      exact ⟨hp, hnot⟩
    · simp only [SerialReader.ahead]
      rw [hfront]
      simp

/-! ## One call -/

theorem serialLines_ahead_line {l₀ rest : List UInt8} (h : newline ∉ l₀) :
    serialLines (l₀ ++ newline :: rest)
      = fromUtf8Lossy (l₀ ++ [newline]) :: serialLines rest := by
  rw [serialLines, lines_append_delim h]
  rfl

/-- A regular file: reads return data or the end of file. -/
def Regular (ticks : List Tick) : Prop := ∀ t ∈ ticks, t.read.error = none

/-- **One call**: the lines it hands on are the first lines ahead, and if it
returns a line, that is the first of them that matches. -/
theorem pollLoop_spec (expected : ExpectedOutput) (timeout : Nat)
    {ticks : List Tick} (hreg : Regular ticks) (r : SerialReader)
    {pending : List UInt8} (hp : newline ∉ pending) {line : Str}
    (hok : (pollLoop expected timeout ticks r pending).result = .Ok line) :
    ∃ skipped,
      (pollLoop expected timeout ticks r pending).handed = skipped ++ [line] ∧
      (∀ l ∈ skipped, expected.matches l = false) ∧
      expected.matches line = true ∧
      serialLines (r.ahead pending)
        = skipped ++ line ::
          serialLines ((pollLoop expected timeout ticks r pending).reader.ahead []) := by
  induction ticks generalizing r pending with
  | nil => simp [pollLoop] at hok
  | cons t ts ih =>
      have hts : Regular ts := fun u hu => hreg u (by simp [hu])
      have hread : t.read.error = none := hreg t (by simp)
      by_cases hshut : t.shutdown = true
      · simp [pollLoop, hshut] at hok
      by_cases htime : timeout < t.elapsed
      · simp [pollLoop, hshut, htime] at hok
      rcases readChunk_spec r hp hread with
        ⟨l₀, r', hchunk, hnot, -, hahead⟩ |
          ⟨out, pending', r', hchunk, hout, hp', -, hahead⟩
      · by_cases hm : expected.matches (fromUtf8Lossy (l₀ ++ [newline])) = true
        · -- the completed line matches: it is the result
          simp only [pollLoop, hshut, htime, hchunk, hm, if_true, if_false,
            Bool.false_eq_true, PollResult.Ok.injEq] at hok ⊢
          subst hok
          exact ⟨[], rfl, by simp, hm, by
            rw [hahead, serialLines_ahead_line hnot, List.nil_append]⟩
        · -- it does not: the loop goes on behind it
          simp only [pollLoop, hshut, htime, hchunk, hm, if_false,
            Bool.false_eq_true, PollRun.hand] at hok ⊢
          obtain ⟨skipped, hhand, hskip, hmatch, hlines⟩ :=
            ih hts r' (by simp) hok
          refine ⟨fromUtf8Lossy (l₀ ++ [newline]) :: skipped, by rw [hhand]; rfl,
            ?_, hmatch, ?_⟩
          · intro l hl
            rcases List.mem_cons.mp hl with rfl | hl
            · exact Bool.eq_false_iff.mpr hm
            · exact hskip l hl
          · rw [hahead, serialLines_ahead_line hnot, hlines]
            rfl
      · have hstep : pollLoop expected timeout (t :: ts) r pending
            = pollLoop expected timeout ts r' pending' := by
          rcases hout with rfl | rfl <;> simp [pollLoop, hshut, htime, hchunk]
        rw [hstep] at hok ⊢
        rw [← hahead]
        exact ih hts r' hp' hok

/-! ## All calls -/

/-- The calls from any reader on: they serve the lines ahead of it. -/
theorem pollCalls_spec (calls : List PollCall)
    (hreg : ∀ c ∈ calls, Regular c.ticks) (r : SerialReader)
    (hok : ∀ run ∈ pollCalls calls r, ∃ line, run.result = .Ok line) :
    serve (calls.map fun c => c.expected.matches) (serialLines (r.ahead []))
        = some ((pollCalls calls r).map PollRun.handed) ∧
      (pollCalls calls r).flatMap PollRun.handed <+: serialLines (r.ahead []) ∧
      ∀ run ∈ pollCalls calls r, ∃ line, run.result = .Ok line ∧
        run.handed.getLast? = some line := by
  induction calls generalizing r with
  | nil => exact ⟨rfl, List.nil_prefix, by simp [pollCalls]⟩
  | cons c cs ih =>
      obtain ⟨line, hline⟩ := hok _ (List.mem_cons_self ..)
      obtain ⟨skipped, hhand, hskip, hmatch, hlines⟩ :=
        pollLoop_spec c.expected c.timeout (hreg c (by simp)) r (by simp) hline
      obtain ⟨hserve, hprefix, hlast⟩ := ih (fun d hd => hreg d (by simp [hd]))
        (pollLineMatchTimeout c.expected c.timeout c.ticks r).reader
        (fun run hrun => hok run (List.mem_cons_of_mem _ hrun))
      refine ⟨?_, ?_, ?_⟩
      · rw [List.map_cons, hlines, serve_cons hskip hmatch]
        simp only [pollCalls, List.map_cons]
        rw [show serialLines ((pollLoop c.expected c.timeout c.ticks r []).reader.ahead [])
            = serialLines ((pollLineMatchTimeout c.expected c.timeout c.ticks
              r).reader.ahead []) from rfl, hserve, Option.map_some]
        rw [← hhand]
        rfl
      · rw [hlines, pollCalls, List.flatMap_cons]
        rw [show (pollLineMatchTimeout c.expected c.timeout c.ticks r).handed
            = skipped ++ [line] from hhand, List.append_assoc,
          List.prefix_append_right_inj, List.singleton_append,
          List.prefix_cons_inj]
        exact hprefix
      · intro run hrun
        rcases List.mem_cons.mp hrun with rfl | hrun
        · exact ⟨line, hline, by
            rw [show (pollLineMatchTimeout c.expected c.timeout c.ticks r).handed
              = skipped ++ [line] from hhand]
            simp⟩
        · exact hlast run hrun

/-- **Polling is independent of how the log grows**: when every call returns
a line, the lines handed to the matchers over all calls are the first lines
of the log, decoded whole and in order, and each call consumes the lines up
to the first one its matcher accepts, which is the one it returns. -/
theorem pollCalls_serve (log : List UInt8) (calls : List PollCall)
    (hreg : ∀ c ∈ calls, Regular c.ticks)
    (hok : ∀ run ∈ pollCalls calls (.new log), ∃ line, run.result = .Ok line) :
    serve (calls.map fun c => c.expected.matches) (serialLines log)
        = some ((pollCalls calls (.new log)).map PollRun.handed) ∧
      (pollCalls calls (.new log)).flatMap PollRun.handed <+: serialLines log ∧
      ∀ run ∈ pollCalls calls (.new log), ∃ line, run.result = .Ok line ∧
        run.handed.getLast? = some line :=
  pollCalls_spec calls hreg (.new log) hok

/-- A log with a multi-byte character and an unterminated tail. -/
def fragmentedLog : List UInt8 :=
  asciiBytes (lit "BIOS ") ++ [0xE2, 0x82, 0xAC]
    ++ asciiBytes (lit "\nREADY\nALIVE\nALI")

/-- A tick that reads with `visible` bytes of the log written. -/
def grown (visible : Nat) : Tick := ⟨false, 0, visible, none⟩

/-- Two calls whose reads end inside the character, inside a line and at a
line end. -/
def fragmentedCalls : List PollCall :=
  [⟨.SubString (lit "READY"), 10, [grown 3, grown 6, grown 6, grown 11, grown 40]⟩,
    ⟨.SubString (lit "ALIVE"), 10, [grown 15, grown 20, grown 22]⟩]

theorem pollCalls_serve_fragmented :
    serve (fragmentedCalls.map fun c => c.expected.matches)
        (serialLines fragmentedLog)
        = some ((pollCalls fragmentedCalls (.new fragmentedLog)).map PollRun.handed) ∧
      (pollCalls fragmentedCalls (.new fragmentedLog)).flatMap PollRun.handed
        <+: serialLines fragmentedLog ∧
      ∀ run ∈ pollCalls fragmentedCalls (.new fragmentedLog), ∃ line,
        run.result = .Ok line ∧ run.handed.getLast? = some line :=
  pollCalls_serve fragmentedLog fragmentedCalls
    (by simp [fragmentedCalls, Regular, grown])
    (by
      have hresults : (pollCalls fragmentedCalls (.new fragmentedLog)).map
          PollRun.result = [.Ok (lit "READY\n"), .Ok (lit "ALIVE\n")] := by
        decide +kernel
      intro run hrun
      have hmem := List.mem_map_of_mem (f := PollRun.result) hrun
      rw [hresults, List.mem_cons, List.mem_singleton] at hmem
      rcases hmem with h | h
      · exact ⟨_, h⟩
      · exact ⟨_, h⟩)

end QemuTest
