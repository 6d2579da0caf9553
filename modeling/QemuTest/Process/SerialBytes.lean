import QemuTest.Process.Serial
import QemuTest.Lib.Runs

/-!
# Process — SerialBytes

Where the bytes of the serial log are while a process is polled, call after
call and over every outcome of the reads. The state machine takes one loop
iteration of `poll_line_match_timeout` at a time; the lines handed to the
matchers are kept as bytes.

An unfinished line lives in the call that reads it. It does not outlive the
call, and a read that ends in an error takes bytes without adding them to it.
-/

namespace QemuTest

open Text Lines Utf8 Runs

/-- A call under way: its arguments and the line it has begun to read. -/
structure Polling where
  expected : ExpectedOutput
  timeout : Nat
  pending : List UInt8

/-- A process as its polling sees it, and the lines handed over so far. -/
structure SerialState where
  reader : SerialReader
  call : Option Polling
  handed : List (List UInt8)

namespace SerialState

def new (log : List UInt8) : SerialState := ⟨.new log, none, []⟩

/-- The bytes kept for the next read. -/
def retained (s : SerialState) : List UInt8 :=
  match s.call with
  | none => []
  | some c => c.pending

/-- The bytes taken from the reader. -/
def consumed (s : SerialState) : List UInt8 := s.reader.log.take s.reader.pos

/-- The bytes that went into a line that was handed over, and those kept. -/
def accounted (s : SerialState) : List UInt8 := s.handed.flatten ++ s.retained

/-- No byte is lost: what was consumed is the lines handed over and what is
kept, and the lines are those of the log. -/
structure Whole (s : SerialState) : Prop where
  accounted : s.accounted = s.consumed
  handed : s.handed = lines newline s.consumed

end SerialState

/-- The bytes a read finds. -/
def SerialReader.unread (r : SerialReader) (ev : ReadEvent) : List UInt8 :=
  (r.log.take ev.visible).drop r.pos

/-- The bytes a read hands to its caller. -/
def SerialReader.taken (r : SerialReader) (ev : ReadEvent) : List UInt8 :=
  match (r.readUntil ev).1 with
  | .ok buf => buf
  | .error _ => []

/-- One iteration of the loop of `poll_line_match_timeout`. -/
def SerialState.tick (s : SerialState) (c : Polling) (t : Tick) : SerialState :=
  if t.shutdown = true ∨ c.timeout < t.elapsed then { s with call := none }
  else
    match readChunk s.reader c.pending t.read with
    | (.error _, _, r') => { s with reader := r', call := none }
    | (.ok (.Line line), pending', r') =>
        { reader := r'
          call := if c.expected.matches line then none else some { c with pending := pending' }
          handed := s.handed ++ [c.pending ++ s.reader.taken t.read] }
    | (.ok .Progress, pending', r') =>
        { s with reader := r', call := some { c with pending := pending' } }
    | (.ok .NoProgress, pending', r') =>
        { s with reader := r', call := some { c with pending := pending' } }

inductive SerialEvent where
  | start (expected : ExpectedOutput) (timeout : Nat)
  | tick (t : Tick)

/-- One call at a time; an iteration is one of the call under way. -/
def SerialState.step (s : SerialState) : SerialEvent → Option SerialState
  | .start expected timeout =>
      match s.call with
      | none => some { s with call := some ⟨expected, timeout, []⟩ }
      | some _ => none
  | .tick t => s.call.map fun c => s.tick c t

/-- A run of polls from a fresh process. -/
def SerialRun (log : List UInt8) (es : List SerialEvent) (s : SerialState) : Prop :=
  Run (fun s e t => s.step e = some t) (SerialState.new log) es s

/-- An iteration that keeps every byte: the call does not end with an
unfinished line, and a read that ends in an error has found a line end or
nothing. -/
def Keeps (s : SerialState) : SerialEvent → Prop
  | .start _ _ => True
  | .tick t =>
      ∀ c, s.call = some c →
        if t.shutdown = true ∨ c.timeout < t.elapsed then c.pending = []
        else match t.read.error with
          | none => True
          | some (.Other _) =>
              newline ∈ s.reader.unread t.read ∨
                (s.reader.unread t.read = [] ∧ c.pending = [])
          | some _ => newline ∈ s.reader.unread t.read ∨ s.reader.unread t.read = []

/-! ## One read -/

/-- What a read finds is the front of the unconsumed log. -/
theorem take_add_unread (r : SerialReader) {ev : ReadEvent} {buf rest : List UInt8}
    (h : r.unread ev = buf ++ rest) :
    r.log.take (r.pos + buf.length) = r.log.take r.pos ++ buf := by
  have hpre : buf <+: r.log.drop r.pos := by
    rw [SerialReader.unread, List.drop_take] at h
    exact (List.prefix_append buf rest).trans (h ▸ List.take_prefix _ _)
  obtain ⟨tail, htail⟩ := hpre
  rw [List.take_add, ← htail, List.take_left]

/-- **What one read does**: it hands on a whole line or bytes without a line
end; or it ends in an error, and the bytes it found are consumed. -/
theorem readUntil_cases (r : SerialReader) (ev : ReadEvent) :
    (∃ l₀ rest, r.unread ev = (l₀ ++ [newline]) ++ rest ∧ newline ∉ l₀ ∧
      r.readUntil ev
        = (.ok (l₀ ++ [newline]), { r with pos := r.pos + (l₀ ++ [newline]).length })) ∨
    (newline ∉ r.unread ev ∧
      r.readUntil ev
        = (match ev.error with
            | none => .ok (r.unread ev)
            | some e => .error e,
          { r with pos := r.pos + (r.unread ev).length })) := by
  cases hcut : cutLine newline (r.unread ev) with
  | none =>
      refine .inr ⟨cutLine_eq_none hcut, ?_⟩
      rw [SerialReader.unread] at hcut
      simp only [SerialReader.readUntil, hcut]
      cases ev.error <;> rfl
  | some p =>
      obtain ⟨buf, rest⟩ := p
      obtain ⟨heq, l₀, rfl, hnot⟩ := cutLine_eq_some hcut
      refine .inl ⟨l₀, rest, heq, hnot, ?_⟩
      rw [SerialReader.unread] at hcut
      simp only [SerialReader.readUntil, hcut]

/-- The bytes that end an unfinished line make it a whole one. -/
theorem readChunk_line {r : SerialReader} {ev : ReadEvent} {l₀ : List UInt8}
    {r' : SerialReader} (h : r.readUntil ev = (.ok (l₀ ++ [newline]), r'))
    (pending : List UInt8) :
    readChunk r pending ev
      = (.ok (.Line (fromUtf8Lossy (pending ++ (l₀ ++ [newline])))), [], r') := by
  have hl : ¬ (pending ++ (l₀ ++ [newline])).getLast? ≠ some newline := by simp
  cases hb : l₀ ++ [newline] with
  | nil => simp at hb
  | cons b bs =>
      rw [hb] at h hl
      simp only [readChunk, h, if_neg hl]

/-- Bytes without a line end join the unfinished line. -/
theorem readChunk_bytes {r : SerialReader} {ev : ReadEvent} {buf : List UInt8}
    {r' : SerialReader} (h : r.readUntil ev = (.ok buf, r')) (hnot : newline ∉ buf)
    (pending : List UInt8) :
    ∃ out, readChunk r pending ev = (.ok out, pending ++ buf, r') ∧
      (out = .Progress ∨ out = .NoProgress) := by
  cases buf with
  | nil => exact ⟨.NoProgress, by simp [readChunk, h], .inr rfl⟩
  | cons b bs =>
      have hl : (pending ++ b :: bs).getLast? ≠ some newline := by
        rw [List.getLast?_append_of_ne_nil _ (by simp)]
        exact fun heq => hnot (List.mem_of_getLast? heq)
      exact ⟨.Progress, by simp only [readChunk, h, if_pos hl], .inl rfl⟩

/-! ## One iteration -/

/-- The shape of a state: whole lines were handed over, and what is kept holds
no line end. -/
structure Shaped (s : SerialState) : Prop where
  handed : ∀ l ∈ s.handed, ∃ l₀, l = l₀ ++ [newline] ∧ newline ∉ l₀
  retained : newline ∉ s.retained

theorem Shaped.pending {s : SerialState} {c : Polling} (hs : Shaped s)
    (hc : s.call = some c) : newline ∉ c.pending := by
  have hnot := hs.retained
  rwa [SerialState.retained, hc] at hnot

/-- A step takes bytes from the reader. It accounts for all of them when it
keeps every byte, and otherwise some are gone. -/
def Takes (s t : SerialState) (keeps : Prop) : Prop :=
  ∃ buf, t.consumed = s.consumed ++ buf ∧
    (keeps ∧ t.accounted = s.accounted ++ buf ∨
      ¬ keeps ∧ t.accounted.length < s.accounted.length + buf.length)

section Iteration

variable {s : SerialState} {c : Polling} {t : Tick}

/-- The call ends before the read: its unfinished line is gone. -/
theorem tick_ends (hc : s.call = some c) (hs : Shaped s)
    (hend : t.shutdown = true ∨ c.timeout < t.elapsed) :
    Shaped (s.tick c t) ∧ Takes s (s.tick c t) (Keeps s (.tick t)) := by
  have htick : s.tick c t = { s with call := none } := if_pos hend
  have hkeeps : Keeps s (.tick t) ↔ c.pending = [] := by
    simp [Keeps, hc, hend]
  rw [htick]
  refine ⟨⟨hs.handed, by simp [SerialState.retained]⟩, [], by simp [SerialState.consumed], ?_⟩
  by_cases hp : c.pending = []
  · left
    refine ⟨hkeeps.mpr hp, ?_⟩
    simp [SerialState.accounted, SerialState.retained, hc, hp]
  · right
    refine ⟨mt hkeeps.mp hp, ?_⟩
    have hlen := List.length_pos_iff.mpr hp
    simp only [SerialState.accounted, SerialState.retained, hc, List.length_append,
      List.length_nil]
    omega

/-- The read completes a line: the unfinished line and the bytes are handed
over together. -/
theorem tick_line (hc : s.call = some c) (hs : Shaped s)
    (hgo : ¬ (t.shutdown = true ∨ c.timeout < t.elapsed)) {l₀ rest : List UInt8}
    (hunread : s.reader.unread t.read = (l₀ ++ [newline]) ++ rest) (hnot : newline ∉ l₀)
    (hread : s.reader.readUntil t.read
      = (.ok (l₀ ++ [newline]),
        { s.reader with pos := s.reader.pos + (l₀ ++ [newline]).length })) :
    Shaped (s.tick c t) ∧ Takes s (s.tick c t) (Keeps s (.tick t)) := by
  have hpending := hs.pending hc
  have hkeeps : Keeps s (.tick t) := by
    intro c' hc'
    obtain rfl := Option.some.inj (hc.symm.trans hc')
    have hmem : newline ∈ s.reader.unread t.read := by simp [hunread]
    rw [if_neg hgo]
    split
    · trivial
    · exact .inl hmem
    · exact .inl hmem
  have htaken : s.reader.taken t.read = l₀ ++ [newline] := by
    rw [SerialReader.taken, hread]
  have hretained : (s.tick c t).retained = [] := by
    simp only [SerialState.tick, if_neg hgo, readChunk_line hread, SerialState.retained]
    by_cases hm : c.expected.matches (fromUtf8Lossy (c.pending ++ (l₀ ++ [newline]))) = true
    · rw [if_pos hm]
    · rw [if_neg hm]
  have hhanded : (s.tick c t).handed = s.handed ++ [c.pending ++ (l₀ ++ [newline])] := by
    simp only [SerialState.tick, if_neg hgo, readChunk_line hread, htaken]
  have hreader : (s.tick c t).reader
      = { s.reader with pos := s.reader.pos + (l₀ ++ [newline]).length } := by
    simp only [SerialState.tick, if_neg hgo, readChunk_line hread]
  refine ⟨⟨fun l hl => ?_, by simp [hretained]⟩, l₀ ++ [newline], ?_, .inl ⟨hkeeps, ?_⟩⟩
  · rw [hhanded, List.mem_append, List.mem_singleton] at hl
    rcases hl with hl | rfl
    · exact hs.handed l hl
    · exact ⟨c.pending ++ l₀, by simp, by simp [hpending, hnot]⟩
  · rw [SerialState.consumed, hreader]
    exact take_add_unread s.reader hunread
  · rw [SerialState.accounted, hhanded, hretained, SerialState.accounted,
      SerialState.retained, hc]
    simp

/-- The read ends without a line end and without an error: the bytes join the
unfinished line. -/
theorem tick_bytes (hc : s.call = some c) (hs : Shaped s)
    (hgo : ¬ (t.shutdown = true ∨ c.timeout < t.elapsed))
    (herr : t.read.error = none) (hnot : newline ∉ s.reader.unread t.read)
    (hread : s.reader.readUntil t.read
      = (.ok (s.reader.unread t.read),
        { s.reader with pos := s.reader.pos + (s.reader.unread t.read).length })) :
    Shaped (s.tick c t) ∧ Takes s (s.tick c t) (Keeps s (.tick t)) := by
  have hpending := hs.pending hc
  have hkeeps : Keeps s (.tick t) := by
    intro c' hc'
    obtain rfl := Option.some.inj (hc.symm.trans hc')
    simp [if_neg hgo, herr]
  obtain ⟨out, hchunk, hout⟩ := readChunk_bytes hread hnot c.pending
  have htick : s.tick c t
      = { s with
          reader := { s.reader with pos := s.reader.pos + (s.reader.unread t.read).length }
          call := some { c with pending := c.pending ++ s.reader.unread t.read } } := by
    rcases hout with rfl | rfl <;> simp only [SerialState.tick, if_neg hgo, hchunk]
  rw [htick]
  refine ⟨⟨hs.handed, ?_⟩, s.reader.unread t.read, ?_, .inl ⟨hkeeps, ?_⟩⟩
  · simp [SerialState.retained, hpending, hnot]
  · exact take_add_unread s.reader (List.append_nil _).symm
  · simp [SerialState.accounted, SerialState.retained, hc]

/-- The read ends in an error: what it found is consumed and kept nowhere. An
error that is not a missing byte ends the call as well. -/
theorem tick_error (hc : s.call = some c) (hs : Shaped s)
    (hgo : ¬ (t.shutdown = true ∨ c.timeout < t.elapsed)) {e : ErrorKind}
    (herr : t.read.error = some e) (hnot : newline ∉ s.reader.unread t.read)
    (hread : s.reader.readUntil t.read
      = (.error e,
        { s.reader with pos := s.reader.pos + (s.reader.unread t.read).length })) :
    Shaped (s.tick c t) ∧ Takes s (s.tick c t) (Keeps s (.tick t)) := by
  have hpending := hs.pending hc
  have hconsumed : s.reader.log.take
        (s.reader.pos + (s.reader.unread t.read).length)
      = s.consumed ++ s.reader.unread t.read :=
    take_add_unread s.reader (List.append_nil _).symm
  cases e with
  | Other m =>
      have hkeeps : Keeps s (.tick t) ↔ s.reader.unread t.read = [] ∧ c.pending = [] := by
        simp [Keeps, hc, hgo, herr, hnot]
      have htick : s.tick c t
          = { s with
              reader :=
                { s.reader with pos := s.reader.pos + (s.reader.unread t.read).length }
              call := none } := by
        simp only [SerialState.tick, if_neg hgo, readChunk, hread]
      rw [htick]
      refine ⟨⟨hs.handed, by simp [SerialState.retained]⟩, _, hconsumed, ?_⟩
      by_cases hempty : s.reader.unread t.read = [] ∧ c.pending = []
      · left
        refine ⟨hkeeps.mpr hempty, ?_⟩
        simp [SerialState.accounted, SerialState.retained, hc, hempty]
      · right
        refine ⟨mt hkeeps.mp hempty, ?_⟩
        have hlen : 0 < (s.reader.unread t.read).length + c.pending.length := by
          rw [← List.length_append]
          exact List.length_pos_iff.mpr (by simpa using hempty)
        simp only [SerialState.accounted, SerialState.retained, hc, List.length_append,
          List.length_nil]
        omega
  | WouldBlock | TimedOut =>
      have hkeeps : Keeps s (.tick t) ↔ s.reader.unread t.read = [] := by
        simp [Keeps, hc, hgo, herr, hnot]
      have htick : s.tick c t
          = { s with
              reader :=
                { s.reader with pos := s.reader.pos + (s.reader.unread t.read).length }
              call := some c } := by
        simp only [SerialState.tick, if_neg hgo, readChunk, hread]
      rw [htick]
      refine ⟨⟨hs.handed, by simp [SerialState.retained, hpending]⟩, _, hconsumed, ?_⟩
      by_cases hempty : s.reader.unread t.read = []
      · left
        refine ⟨hkeeps.mpr hempty, ?_⟩
        simp [SerialState.accounted, SerialState.retained, hc, hempty]
      · right
        refine ⟨mt hkeeps.mp hempty, ?_⟩
        have hlen := List.length_pos_iff.mpr hempty
        simp only [SerialState.accounted, SerialState.retained, hc]
        omega

/-- **One step**: the state keeps its shape, and the bytes the step takes are
accounted for iff it keeps every byte. -/
theorem step_takes {s t : SerialState} {e : SerialEvent} (hs : Shaped s)
    (h : s.step e = some t) : Shaped t ∧ Takes s t (Keeps s e) := by
  cases e with
  | start expected timeout =>
      cases hc : s.call with
      | some c => simp [SerialState.step, hc] at h
      | none =>
          simp only [SerialState.step, hc, Option.some.injEq] at h
          subst h
          refine ⟨⟨hs.handed, by simp [SerialState.retained]⟩, [],
            by simp [SerialState.consumed], .inl ⟨trivial, ?_⟩⟩
          simp [SerialState.accounted, SerialState.retained, hc]
  | tick u =>
      obtain ⟨c, hc, rfl⟩ := Option.map_eq_some_iff.mp h
      by_cases hend : u.shutdown = true ∨ c.timeout < u.elapsed
      · exact tick_ends hc hs hend
      rcases readUntil_cases s.reader u.read with
        ⟨l₀, rest, hunread, hnot, hread⟩ | ⟨hnot, hread⟩
      · exact tick_line hc hs hend hunread hnot hread
      · cases herr : u.read.error with
        | none => exact tick_bytes hc hs hend herr hnot (by rw [hread, herr])
        | some e => exact tick_error hc hs hend herr hnot (by rw [hread, herr])

end Iteration

/-! ## Runs -/

/-- Bytes are lost for good: the account never catches up. -/
theorem account_of_run {log : List UInt8} {es : List SerialEvent} {s : SerialState}
    (h : SerialRun log es s) :
    Shaped s ∧ s.accounted.length ≤ s.consumed.length ∧
      (s.accounted = s.consumed ↔
        EveryStep (fun s e t => s.step e = some t) (SerialState.new log) Keeps es) := by
  have hdet : ∀ (t : SerialState) e u v, t.step e = some u → t.step e = some v → u = v :=
    fun _ _ _ _ hu hv => Option.some.inj (hu.symm.trans hv)
  induction h with
  | nil =>
      refine ⟨⟨by simp [SerialState.new], by simp [SerialState.new, SerialState.retained]⟩,
        by simp [SerialState.new, SerialState.accounted, SerialState.retained],
        iff_of_true rfl (everyStep_nil _ _ _)⟩
  | @snoc es s t e hrun hstep ih =>
      obtain ⟨hshaped, hle, hiff⟩ := ih
      obtain ⟨hshaped', buf, hconsumed, hcase⟩ := step_takes hshaped hstep
      rw [everyStep_snoc hdet hrun, ← hiff, hconsumed, List.length_append]
      rcases hcase with ⟨hkeeps, hacc⟩ | ⟨hkeeps, hacc⟩
      · rw [hacc, List.length_append, List.append_left_inj]
        exact ⟨hshaped', by omega, by simp [hkeeps]⟩
      · refine ⟨hshaped', by omega, iff_of_false (fun heq => ?_) fun hand => hkeeps hand.2⟩
        rw [heq, List.length_append] at hacc
        omega

/-- **No serial byte is lost**: in every state of every run of polls, the bytes
consumed are those of the lines handed over, each a whole line of the log, and
those kept for the next read, iff every step so far kept every byte. -/
theorem whole_iff {log : List UInt8} {es : List SerialEvent} {s : SerialState}
    (h : SerialRun log es s) :
    s.Whole ↔ EveryStep (fun s e t => s.step e = some t) (SerialState.new log) Keeps es := by
  obtain ⟨hshaped, -, hiff⟩ := account_of_run h
  rw [← hiff]
  constructor
  · exact fun hw => hw.accounted
  · intro hacc
    refine ⟨hacc, ?_⟩
    rw [← hacc, SerialState.accounted]
    exact (lines_flatten_append hshaped.handed hshaped.retained).symm

/-! ## A returned line -/

/-- **What one chunk does**, whatever the read meets: it completes the line
ahead, or it takes bytes without a line end and keeps some of them. -/
theorem readChunk_cases (r : SerialReader) (pending : List UInt8) (ev : ReadEvent) :
    (∃ l₀ r', newline ∉ l₀ ∧ r.log.drop r.pos = l₀ ++ newline :: r'.log.drop r'.pos ∧
      readChunk r pending ev
        = (.ok (.Line (fromUtf8Lossy (pending ++ (l₀ ++ [newline])))), [], r')) ∨
    (∃ out kept buf r', newline ∉ buf ∧ kept.Sublist buf ∧
      r.log.drop r.pos = buf ++ r'.log.drop r'.pos ∧
      readChunk r pending ev = (out, pending ++ kept, r') ∧
      ∀ line, out ≠ .ok (.Line line)) := by
  have hfront : ∀ buf rest, r.unread ev = buf ++ rest →
      r.log.drop r.pos = buf ++ r.log.drop (r.pos + buf.length) := by
    intro buf rest heq
    obtain ⟨tail, htail⟩ : buf <+: r.log.drop r.pos := by
      rw [SerialReader.unread, List.drop_take] at heq
      exact (List.prefix_append buf rest).trans (heq ▸ List.take_prefix _ _)
    rw [← List.drop_drop, ← htail, List.drop_left]
  rcases readUntil_cases r ev with ⟨l₀, rest, hunread, hnot, hread⟩ | ⟨hnot, hread⟩
  · left
    refine ⟨l₀, _, hnot, ?_, readChunk_line hread pending⟩
    rw [hfront _ rest hunread, List.append_assoc, List.singleton_append]
  · right
    have hdrop := hfront _ [] (List.append_nil _).symm
    cases herr : ev.error with
    | none =>
        rw [herr] at hread
        obtain ⟨out, hchunk, hout⟩ := readChunk_bytes hread hnot pending
        refine ⟨_, _, _, _, hnot, List.Sublist.refl _, hdrop, hchunk, fun line => ?_⟩
        rcases hout with rfl | rfl <;> simp
    | some e =>
        -- the bytes are consumed, and none of them is kept
        rw [herr] at hread
        obtain ⟨out, hchunk, hout⟩ : ∃ out, readChunk r pending ev
            = (out, pending, { r with pos := r.pos + (r.unread ev).length }) ∧
              ∀ line, out ≠ .ok (.Line line) := by
          cases e with
          | WouldBlock | TimedOut =>
              exact ⟨.ok .NoProgress, by simp only [readChunk, hread], by simp⟩
          | Other e =>
              exact ⟨.error (lit "serial file read error: " ++ e),
                by simp only [readChunk, hread], by simp⟩
        rw [← List.append_nil pending] at hchunk
        exact ⟨out, [], _, _, hnot, List.nil_sublist _, hdrop,
          by simpa using hchunk, hout⟩

/-- **A returned line** comes from one line of the log, of which it may lack
bytes. -/
theorem pollLoop_line (expected : ExpectedOutput) (timeout : Nat) {ticks : List Tick}
    {r : SerialReader} {pending part : List UInt8} (hsub : pending.Sublist part)
    (hnot : newline ∉ part) {line : Str}
    (hok : (pollLoop expected timeout ticks r pending).result = .Ok line) :
    expected.matches line = true ∧ ∃ bs l, line = fromUtf8Lossy bs ∧ bs.Sublist l ∧
      l ∈ lines newline (part ++ r.log.drop r.pos) := by
  induction ticks generalizing r pending part with
  | nil => simp [pollLoop] at hok
  | cons t ts ih =>
      by_cases hshut : t.shutdown = true
      · simp [pollLoop, hshut] at hok
      by_cases htime : timeout < t.elapsed
      · simp [pollLoop, hshut, htime] at hok
      rcases readChunk_cases r pending t.read with
        ⟨l₀, r', hl₀, hahead, hchunk⟩ | ⟨out, kept, buf, r', hbuf, hkept, hahead, hchunk, hout⟩
      · have hlines : lines newline (part ++ r.log.drop r.pos)
            = (part ++ l₀ ++ [newline]) :: lines newline (r'.log.drop r'.pos) := by
          rw [hahead, ← List.append_assoc,
            lines_append_delim (by rw [List.mem_append, not_or]; exact ⟨hnot, hl₀⟩)]
        rw [hlines]
        by_cases hm : expected.matches (fromUtf8Lossy (pending ++ (l₀ ++ [newline]))) = true
        · simp only [pollLoop, hshut, htime, hchunk, hm, if_true, if_false,
            Bool.false_eq_true, PollResult.Ok.injEq] at hok
          subst hok
          refine ⟨hm, _, _, rfl, ?_, List.mem_cons_self ..⟩
          rw [List.append_assoc]
          exact hsub.append (List.Sublist.refl _)
        · simp only [pollLoop, hshut, htime, hchunk, hm, if_false, Bool.false_eq_true,
            PollRun.hand] at hok
          obtain ⟨hmatch, bs, l, hline, hbs, hl⟩ :=
            ih (List.Sublist.refl []) (List.not_mem_nil) hok
          exact ⟨hmatch, bs, l, hline, hbs, List.mem_cons_of_mem _ hl⟩
      · have hstep : (pollLoop expected timeout (t :: ts) r pending).result = .Ok line →
            (pollLoop expected timeout ts r' (pending ++ kept)).result = .Ok line := by
          intro h
          cases out with
          | error e => simp [pollLoop, hshut, htime, hchunk] at h
          | ok o =>
              cases o with
              | Line l => exact absurd rfl (hout l)
              | Progress | NoProgress => simpa [pollLoop, hshut, htime, hchunk] using h
        rw [hahead, ← List.append_assoc]
        exact ih (hsub.append hkept) (by rw [List.mem_append, not_or]; exact ⟨hnot, hbuf⟩)
          (hstep hok)

/-! ## Calls as runs -/

/-- The line of a chunk is the unfinished line and the bytes taken, decoded. -/
theorem line_of_readChunk {r r' : SerialReader} {pending pending' : List UInt8}
    {ev : ReadEvent} {line : Str}
    (h : readChunk r pending ev = (.ok (.Line line), pending', r')) :
    line = fromUtf8Lossy (pending ++ r.taken ev) := by
  rcases readUntil_cases r ev with ⟨l₀, rest, -, -, hread⟩ | ⟨hnot, hread⟩
  · rw [readChunk_line hread] at h
    simp only [Prod.mk.injEq, Except.ok.injEq, ChunkResult.Line.injEq] at h
    rw [SerialReader.taken, hread, ← h.1]
  · cases herr : ev.error with
    | none =>
        rw [herr] at hread
        obtain ⟨out, hchunk, hout⟩ := readChunk_bytes hread hnot pending
        rw [hchunk] at h
        rcases hout with rfl | rfl <;> simp at h
    | some e =>
        rw [herr] at hread
        cases e <;> simp [readChunk, hread] at h

/-- The lines handed over, as the matchers see them. -/
def SerialState.shown (s : SerialState) : List Str := s.handed.map fromUtf8Lossy

/-- The events `es` lead from `s` to `t` as the call `run` did. -/
structure Replays (s : SerialState) (es : List SerialEvent) (t : SerialState)
    (run : PollRun) : Prop where
  steps : es.foldlM SerialState.step s = some t
  reader : t.reader = run.reader
  shown : t.shown = s.shown ++ run.handed
  ended : run.result ≠ .running → t.call = none

/-- **A call is a run**: the loop of `poll_line_match_timeout` takes the steps of
the machine, and the call is over when it returns. -/
theorem pollLoop_replays (ticks : List Tick) (s : SerialState) (c : Polling)
    (hc : s.call = some c) :
    ∃ es t, Replays s es t (pollLoop c.expected c.timeout ticks s.reader c.pending) := by
  induction ticks generalizing s c with
  | nil => exact ⟨[], s, rfl, rfl, by simp [pollLoop], by simp [pollLoop]⟩
  | cons t ts ih =>
      -- an iteration that ends the call is the whole run
      have hends : ∀ run : PollRun, (s.tick c t).reader = run.reader →
          (s.tick c t).shown = s.shown ++ run.handed → (s.tick c t).call = none →
          ∃ es u, Replays s es u run := fun run hreader hshown hcall =>
        ⟨[.tick t], s.tick c t, by simp [SerialState.step, hc], hreader, hshown,
          fun _ => hcall⟩
      by_cases hshut : t.shutdown = true
      · apply hends <;> simp [pollLoop, SerialState.tick, hshut, SerialState.shown]
      by_cases htime : c.timeout < t.elapsed
      · apply hends <;> simp [pollLoop, SerialState.tick, hshut, htime, SerialState.shown]
      have hgo : ¬ (t.shutdown = true ∨ c.timeout < t.elapsed) := by simp [hshut, htime]
      rcases hchunk : readChunk s.reader c.pending t.read with ⟨out, pending', r'⟩
      -- an iteration that leaves the call open goes on with the rest of the ticks
      have hopen : ∀ lines, (s.tick c t).shown = s.shown ++ lines →
          (s.tick c t).reader = r' →
          (s.tick c t).call = some { c with pending := pending' } →
          ∃ es u, Replays s es u
            { pollLoop c.expected c.timeout ts r' pending' with
              handed := lines ++ (pollLoop c.expected c.timeout ts r' pending').handed } := by
        intro lines hshown hreader hcall
        obtain ⟨es, u, hf⟩ := ih (s.tick c t) { c with pending := pending' } hcall
        rw [hreader] at hf
        refine ⟨.tick t :: es, u, by simpa [SerialState.step, hc] using hf.steps,
          hf.reader, ?_, hf.ended⟩
        rw [hf.shown, hshown, List.append_assoc]
      cases out with
      | error e =>
          apply hends <;> simp [pollLoop, SerialState.tick, hshut, htime, hchunk, SerialState.shown]
      | ok out =>
          cases out with
          | Progress | NoProgress =>
              obtain ⟨es, u, hf⟩ := hopen []
                (by simp [SerialState.tick, hgo, hchunk, SerialState.shown])
                (by simp only [SerialState.tick, if_neg hgo, hchunk])
                (by simp only [SerialState.tick, if_neg hgo, hchunk])
              refine ⟨es, u, ?_⟩
              simpa only [pollLoop, hshut, htime, hchunk, if_false, Bool.false_eq_true,
                List.nil_append] using hf
          | Line line =>
              have hline := line_of_readChunk hchunk
              by_cases hm : c.expected.matches line = true
              · apply hends <;>
                  simp [pollLoop, SerialState.tick, hshut, htime, hchunk, hm,
                    SerialState.shown, ← hline]
              · obtain ⟨es, u, hf⟩ := hopen [line]
                  (by simp [SerialState.tick, hgo, hchunk, SerialState.shown, ← hline])
                  (by simp only [SerialState.tick, if_neg hgo, hchunk])
                  (by simp only [SerialState.tick, if_neg hgo, hchunk, if_neg hm])
                refine ⟨es, u, ?_⟩
                simpa only [pollLoop, hshut, htime, hchunk, hm, if_false,
                  Bool.false_eq_true, PollRun.hand, List.singleton_append] using hf

/-- A sequence of calls that all return is a run of the machine. -/
theorem pollCalls_run (calls : List PollCall) (s : SerialState) (hc : s.call = none)
    (hret : ∀ run ∈ pollCalls calls s.reader, run.result ≠ .running) :
    ∃ (es : List SerialEvent) (t : SerialState),
      es.foldlM SerialState.step s = some t ∧ t.call = none ∧
      t.shown = s.shown ++ (pollCalls calls s.reader).flatMap PollRun.handed := by
  induction calls generalizing s with
  | nil => exact ⟨[], s, rfl, hc, by simp [pollCalls]⟩
  | cons c cs ih =>
      let s' : SerialState := { s with call := some ⟨c.expected, c.timeout, []⟩ }
      obtain ⟨es, t, hf⟩ := pollLoop_replays c.ticks s' _ rfl
      have hnone := hf.ended (hret _ (List.mem_cons_self ..))
      obtain ⟨fs, u, hrun', hnone', hshown'⟩ := ih t hnone fun run hmem =>
        hret run (List.mem_cons_of_mem _ (hf.reader ▸ hmem))
      refine ⟨.start c.expected c.timeout :: (es ++ fs), u, ?_, hnone', ?_⟩
      · have hstart : s.step (.start c.expected c.timeout) = some s' := by
          simp [SerialState.step, hc, s']
        rw [List.foldlM_cons, hstart]
        simp [List.foldlM_append, hf.steps, hrun']
      · rw [hshown', hf.shown, hf.reader, List.append_assoc]
        rfl

/-- A log line that becomes visible in two pieces. -/
def splitLog : List UInt8 := asciiBytes (lit "READY\n")

/-- One poll reads the line in two pieces, a second one begins. -/
def keptEvents : List SerialEvent :=
  [.start (.SubString (lit "READY")) 10, .tick (grown 3), .tick (grown 6),
    .start (.SubString (lit "READY")) 10, .tick ⟨false, 11, 6, none⟩]

/-- The first poll times out inside the line, the second reads its rest. -/
def timedOutEvents : List SerialEvent :=
  [.start (.SubString (lit "READY")) 10, .tick (grown 3), .tick ⟨false, 11, 3, none⟩,
    .start (.SubString (lit "READY")) 10, .tick (grown 6)]

/-- One poll: its first read finds the piece and then has to wait. -/
def blockedEvents : List SerialEvent :=
  [.start (.SubString (lit "READY")) 10, .tick ⟨false, 0, 3, some .WouldBlock⟩,
    .tick (grown 6)]

/-- What a run from a fresh process hands over and consumes. -/
def runBytes (log : List UInt8) (es : List SerialEvent) :
    Option (List (List UInt8) × List UInt8) :=
  (es.foldlM SerialState.step (.new log)).map fun s => (s.handed, s.consumed)

theorem run_of_runBytes {log : List UInt8} {es : List SerialEvent}
    {p : List (List UInt8) × List UInt8} (h : runBytes log es = some p) :
    ∃ s, SerialRun log es s ∧ s.handed = p.1 ∧ s.consumed = p.2 := by
  obtain ⟨s, hs, rfl⟩ := Option.map_eq_some_iff.mp h
  exact ⟨s, .of_foldlM hs, rfl, rfl⟩

/-- Two polls of which the first returns at the line end. -/
theorem whole_iff_kept :
    ∃ s, SerialRun splitLog keptEvents s ∧
      (s.Whole ↔ EveryStep (fun s e t => s.step e = some t) (SerialState.new splitLog)
        Keeps keptEvents) := by
  obtain ⟨s, hrun, -, -⟩ := run_of_runBytes
    (show runBytes splitLog keptEvents = some ([splitLog], splitLog) by decide +kernel)
  exact ⟨s, hrun, whole_iff hrun⟩

/-- Whoever is handed the end of the line alone has lost its beginning. -/
theorem not_whole_of_runBytes {es : List SerialEvent}
    (h : runBytes splitLog es = some ([asciiBytes (lit "DY\n")], splitLog)) :
    ∃ s, SerialRun splitLog es s ∧ s.handed = [asciiBytes (lit "DY\n")] ∧ ¬ s.Whole := by
  obtain ⟨s, hrun, hhanded, hconsumed⟩ := run_of_runBytes h
  refine ⟨s, hrun, hhanded, fun hw => ?_⟩
  have hlines := hw.handed
  rw [hhanded, hconsumed] at hlines
  exact absurd hlines (by decide +kernel)

/-- After a timeout or an error inside the line, it was handed over without its
beginning. -/
theorem not_whole_split :
    (∃ s, SerialRun splitLog timedOutEvents s ∧
      s.handed = [asciiBytes (lit "DY\n")] ∧ ¬ s.Whole) ∧
    (∃ s, SerialRun splitLog blockedEvents s ∧
      s.handed = [asciiBytes (lit "DY\n")] ∧ ¬ s.Whole) :=
  ⟨not_whole_of_runBytes (by decide +kernel), not_whole_of_runBytes (by decide +kernel)⟩

end QemuTest
