import QemuTest.Process.SerialBytes

/-!
# Process — PollFinds

The other half of polling: a line that has been written is found.

However the log grows and wherever the reads cut it, a call in time returns
the first line it looks for as soon as it has come to read more often than
there are lines in front of it, counting only the reads behind its end
(`pollLineMatchTimeout_finds`).
-/

namespace QemuTest

open Text Lines Utf8

/-- What is ahead within the first `q` bytes of the log. -/
def SerialReader.within (r : SerialReader) (pending : List UInt8) (q : Nat) : List UInt8 :=
  pending ++ (r.log.take q).drop r.pos

/-- Neither interrupted nor late. -/
def InTime (timeout : Nat) (ticks : List Tick) : Prop :=
  ∀ t ∈ ticks, t.shutdown = false ∧ t.elapsed ≤ timeout

/-- The reads that see the first `q` bytes. -/
def readsBehind (q : Nat) (ticks : List Tick) : Nat :=
  ticks.countP fun t => q ≤ t.read.visible

/-- **One chunk**, while a line end is ahead: it completes the first line, or
leaves what is ahead and has not seen all of it. -/
theorem readChunk_within (r : SerialReader) {pending : List UInt8} (hp : newline ∉ pending)
    {ev : ReadEvent} (h : ev.error = none) {q : Nat} (hline : newline ∈ r.within pending q) :
    (∃ l₀ r', readChunk r pending ev
        = (.ok (.Line (fromUtf8Lossy (l₀ ++ [newline]))), [], r') ∧
      newline ∉ l₀ ∧ r.within pending q = l₀ ++ newline :: r'.within [] q) ∨
    (∃ out pending' r', readChunk r pending ev = (.ok out, pending', r') ∧
      (out = .Progress ∨ out = .NoProgress) ∧ newline ∉ pending' ∧
      r'.within pending' q = r.within pending q ∧ ev.visible < q) := by
  have hin : newline ∈ (r.log.take q).drop r.pos :=
    (List.mem_append.mp hline).resolve_left hp
  rcases readUntil_cases r ev with ⟨l₀, rest, hunread, hnot, hread⟩ | ⟨hnot, hread⟩
  · left
    obtain ⟨tail, htail⟩ : l₀ ++ [newline] <+: r.log.drop r.pos := by
      rw [SerialReader.unread, List.drop_take] at hunread
      exact (List.prefix_append _ rest).trans (hunread ▸ List.take_prefix _ _)
    -- the line end found is the first one
    have hlong : l₀.length < q - r.pos := by
      by_contra hle
      rw [List.drop_take, ← htail, List.append_assoc,
        List.take_append_of_le_length (by omega)] at hin
      exact hnot (List.mem_of_mem_take hin)
    refine ⟨pending ++ l₀, { r with pos := r.pos + (l₀ ++ [newline]).length }, ?_, ?_, ?_⟩
    · rw [readChunk_line hread, List.append_assoc]
    · rw [List.mem_append, not_or]
      exact ⟨hp, hnot⟩
    · have hrest : (r.log.take q).drop (r.pos + (l₀ ++ [newline]).length)
          = tail.take (q - (r.pos + (l₀ ++ [newline]).length)) := by
        rw [List.drop_take, ← List.drop_drop, ← htail, List.drop_left]
      rw [SerialReader.within, SerialReader.within, List.drop_take, ← htail,
        List.take_append, List.take_of_length_le (by simp; omega), hrest, Nat.sub_sub]
      simp
  · right
    rw [h] at hread
    obtain ⟨out, hchunk, hout⟩ := readChunk_bytes hread hnot pending
    have hbefore : ev.visible < q := by
      by_contra hle
      have hsub : (r.log.take q).drop r.pos <+: r.unread ev := by
        rw [SerialReader.unread, List.drop_take, List.drop_take]
        exact List.take_prefix_take_left (by omega)
      exact hnot (hsub.subset hin)
    refine ⟨out, pending ++ r.unread ev, { r with pos := r.pos + (r.unread ev).length },
      hchunk, hout, ?_, ?_, hbefore⟩
    · rw [List.mem_append, not_or]
      exact ⟨hp, hnot⟩
    · have hunread : r.unread ev
          = ((r.log.take q).drop r.pos).take (ev.visible - r.pos) := by
        rw [SerialReader.unread, List.drop_take, List.drop_take, List.take_take]
        congr 1
        omega
      obtain ⟨tail, htail⟩ : r.unread ev <+: (r.log.take q).drop r.pos :=
        hunread ▸ List.take_prefix _ _
      rw [SerialReader.within, SerialReader.within, ← List.drop_drop, ← htail,
        List.drop_left, List.append_assoc]

/-- **What is there is returned**, by the rest of the loop. -/
theorem pollLoop_finds (expected : ExpectedOutput) {timeout : Nat} {ticks : List Tick}
    (hreg : Regular ticks) (htime : InTime timeout ticks) {q : Nat} (r : SerialReader)
    {pending : List UInt8} (hp : newline ∉ pending) {skipped rest : List Str} {line : Str}
    (hlines : serialLines (r.within pending q) = skipped ++ line :: rest)
    (hskip : ∀ l ∈ skipped, expected.matches l = false) (hm : expected.matches line = true)
    (hreads : skipped.length < readsBehind q ticks) :
    (pollLoop expected timeout ticks r pending).result = .Ok line := by
  induction ticks generalizing r pending skipped with
  | nil => exact absurd hreads (Nat.not_lt_zero _)
  | cons t ts ih =>
      have hts : Regular ts := fun u hu => hreg u (List.mem_cons_of_mem _ hu)
      have htime' : InTime timeout ts := fun u hu => htime u (List.mem_cons_of_mem _ hu)
      obtain ⟨hshut, hlate⟩ := htime t (List.mem_cons_self ..)
      have hnow : ¬ timeout < t.elapsed := by omega
      have hline : newline ∈ r.within pending q := by
        by_contra hno
        rw [serialLines, lines_of_notMem hno] at hlines
        simp at hlines
      rcases readChunk_within r hp (hreg t (List.mem_cons_self ..)) hline with
        ⟨l₀, r', hchunk, hnot, hwithin⟩ | ⟨out, pending', r', hchunk, hout, hp', hwithin, hvis⟩
      · rw [hwithin, serialLines_ahead_line hnot] at hlines
        cases skipped with
        | nil =>
            obtain ⟨rfl, -⟩ := List.cons.inj hlines
            simp [pollLoop, hshut, hnow, hchunk, hm]
        | cons l ls =>
            obtain ⟨rfl, hbehind⟩ := List.cons.inj hlines
            have hno := hskip _ (List.mem_cons_self ..)
            simp only [pollLoop, hshut, hnow, hchunk, hno, if_false, Bool.false_eq_true,
              PollRun.hand]
            refine ih hts htime' r' List.not_mem_nil hbehind
              (fun l hl => hskip l (List.mem_cons_of_mem _ hl)) ?_
            have hone : readsBehind q (t :: ts) ≤ readsBehind q ts + 1 := by
              rw [readsBehind, readsBehind, List.countP_cons]
              split <;> omega
            rw [List.length_cons] at hreads
            omega
      · have hsame : readsBehind q (t :: ts) = readsBehind q ts :=
          List.countP_cons_of_neg (by simpa using hvis)
        have hstep : pollLoop expected timeout (t :: ts) r pending
            = pollLoop expected timeout ts r' pending' := by
          rcases hout with rfl | rfl <;> simp [pollLoop, hshut, hnow, hchunk]
        rw [hstep]
        exact ih hts htime' r' hp' (by rw [hwithin]; exact hlines) hskip (hsame ▸ hreads)

/-- **A line that has been written is found**: the first one that matches among
the lines of the first `q` bytes, by a call in time that reads behind these
bytes more often than there are lines in front of it. -/
theorem pollLineMatchTimeout_finds (expected : ExpectedOutput) {timeout : Nat}
    {ticks : List Tick} (hreg : Regular ticks) (htime : InTime timeout ticks)
    {log : List UInt8} {q : Nat} {skipped rest : List Str} {line : Str}
    (hlines : serialLines (log.take q) = skipped ++ line :: rest)
    (hskip : ∀ l ∈ skipped, expected.matches l = false) (hm : expected.matches line = true)
    (hreads : skipped.length < readsBehind q ticks) :
    (pollLineMatchTimeout expected timeout ticks (.new log)).result = .Ok line :=
  pollLoop_finds expected hreg htime (.new log) List.not_mem_nil hlines hskip hm hreads

/-- Behind two lines, with reads that end inside a character and inside the
line. -/
theorem pollLineMatchTimeout_finds_fragmented :
    (pollLineMatchTimeout (.SubString (lit "ALIVE")) 10
      [grown 3, grown 11, grown 17, grown 22, grown 22, grown 30] (.new fragmentedLog)).result
        = .Ok (lit "ALIVE\n") := by
  have hlines : serialLines (fragmentedLog.take 22)
      = [lit "BIOS €\n", lit "READY\n"] ++ lit "ALIVE\n" :: [] := by decide +kernel
  refine pollLineMatchTimeout_finds _ ?_ ?_ hlines ?_ ?_ ?_
  · simp [Regular, grown]
  · simp [InTime, grown]
  · decide +kernel
  · decide +kernel
  · decide

/-- A log that is polled in time, without errors, and often enough behind its
first bytes `sent`. -/
structure Prompt (timeout : Nat) (log : List UInt8) (ticks : List Tick) (sent : List UInt8) :
    Prop where
  log : sent <+: log
  regular : Regular ticks
  inTime : InTime timeout ticks
  often : (lines newline sent).length ≤ readsBehind sent.length ticks

/-- A poll returns the first line it looks for. -/
theorem Prompt.finds {timeout : Nat} {log : List UInt8} {ticks : List Tick} {sent : List UInt8}
    (h : Prompt timeout log ticks sent) {expected : ExpectedOutput}
    (hex : ∃ l ∈ lines newline sent, expected.matches (fromUtf8Lossy l) = true) :
    ∃ l ∈ lines newline sent, expected.matches (fromUtf8Lossy l) = true ∧
      (pollLineMatchTimeout expected timeout ticks (.new log)).result
        = .Ok (fromUtf8Lossy l) := by
  have htake : log.take sent.length = sent := by
    obtain ⟨tail, htail⟩ := h.log
    rw [← htail, List.take_left]
  obtain ⟨l, hl⟩ : ∃ l, (lines newline sent).find?
      (fun l => expected.matches (fromUtf8Lossy l)) = some l := by
    obtain ⟨l, hl, hm⟩ := hex
    exact Option.isSome_iff_exists.mp (List.find?_isSome.mpr ⟨l, hl, hm⟩)
  obtain ⟨hm, skipped, rest, hsplit, hskip⟩ := List.find?_eq_some_iff_append.mp hl
  have hlines : serialLines (log.take sent.length)
      = skipped.map fromUtf8Lossy ++ fromUtf8Lossy l :: rest.map fromUtf8Lossy := by
    rw [htake, serialLines, hsplit, List.map_append, List.map_cons]
  refine ⟨l, List.mem_of_find?_eq_some hl, hm,
    pollLoop_finds expected h.regular h.inTime (.new log) List.not_mem_nil hlines
      (fun x hx => ?_) hm ?_⟩
  · obtain ⟨k, hk, rfl⟩ := List.mem_map.mp hx
    simpa using hskip k hk
  · have hoften := h.often
    rw [hsplit, List.length_append, List.length_cons] at hoften
    rw [List.length_map]
    omega

/-- Read whole, once for each line. -/
theorem prompt_attentive (timeout : Nat) (log : List UInt8) : Prompt timeout log
    (List.replicate (lines newline log).length (grown log.length)) log where
  log := List.prefix_refl _
  regular t ht := by
    rw [(List.mem_replicate.mp ht).2]
    rfl
  inTime t ht := by
    rw [(List.mem_replicate.mp ht).2]
    exact ⟨rfl, Nat.zero_le _⟩
  often := by simp [readsBehind, List.countP_replicate, grown]

end QemuTest
