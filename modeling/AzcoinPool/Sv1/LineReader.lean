import AzcoinPool.Lib.Lines

/-!
# Reading lines under `select!`

The read side of a session: `BufReader::read_line` on the socket as a branch of `tokio::select!`.
Polled, the `read_line` future consumes what has arrived, up to and with a newline; it keeps what it
has consumed, and when another branch of the `select!` wins, the future is dropped and the consumed
bytes are gone (`cancel`). A poll that completes hands out one line of the text the bytes stand for
(`poll_line`), and a cancellation loses no line when the consumed bytes are white space
(`cancel_blank`).
-/

namespace AzcoinPool

/-- The read half of a connection. -/
structure LineReader where
  /-- The bytes that have arrived and that no `read_line` has consumed. -/
  unread : Bytes := []
  /-- The bytes the pending `read_line` has consumed. -/
  consumed : Bytes := []
  /-- The peer has closed its side. -/
  closed : Bool := false
  deriving DecidableEq

namespace LineReader

def arrive (r : LineReader) (bytes : Bytes) : LineReader := { r with unread := r.unread ++ bytes }

def peerClose (r : LineReader) : LineReader := { r with closed := true }

/-- Polls the `read_line` future: the reader behind the poll, and the bytes read when the future is
ready, none of them at the end of the stream. -/
def poll (r : LineReader) : LineReader × Option Bytes :=
  if 10 ∈ r.unread then
    let line := r.unread.takeWhile (· ≠ 10)
    ({ r with unread := r.unread.drop (line.length + 1), consumed := [] },
      some (r.consumed ++ line ++ [10]))
  else if r.closed then
    ({ r with unread := [], consumed := [] }, some (r.consumed ++ r.unread))
  else ({ r with unread := [], consumed := r.consumed ++ r.unread }, none)

/-- Drops the `read_line` future. -/
def cancel (r : LineReader) : LineReader := { r with consumed := [] }

@[simp] theorem closed_arrive (r : LineReader) (bytes : Bytes) :
    (r.arrive bytes).closed = r.closed := rfl

@[simp] theorem closed_cancel (r : LineReader) : r.cancel.closed = r.closed := rfl

theorem closed_of_poll {r r' : LineReader} {out : Option Bytes} (h : r.poll = (r', out)) :
    r'.closed = r.closed := by
  rw [poll] at h
  split at h
  · cases h; rfl
  · split at h <;> (cases h; rfl)

/-! ## What a poll reads -/

theorem poll_of_newline {r : LineReader} {l rest : Bytes} (hl : 10 ∉ l)
    (h : r.unread = l ++ 10 :: rest) :
    r.poll = ({ r with unread := rest, consumed := [] }, some (r.consumed ++ l ++ [10])) := by
  have htake : (l ++ 10 :: rest).takeWhile (· ≠ 10) = l := by
    rw [List.takeWhile_append_of_pos (fun b hb => by simp; rintro rfl; exact hl hb)]
    simp
  rw [poll, h, if_pos (by simp), htake]
  simp [List.drop_append]

/-- The reader stands at the text `cs`: what has been consumed of the line, what has arrived and
what is still to come are the text's bytes, and nothing comes once the peer has closed. -/
structure StandsAt (r : LineReader) (future : Bytes) (cs : List Char) : Prop where
  bytes : r.consumed ++ r.unread ++ future = encodeChars cs
  no_newline : 10 ∉ r.consumed
  future_nil : r.closed = true → future = []

theorem StandsAt.arrive {r : LineReader} {bytes future : Bytes} {cs : List Char}
    (h : r.StandsAt (bytes ++ future) cs) (hopen : r.closed = false) :
    (r.arrive bytes).StandsAt future cs where
  bytes := by rw [← h.bytes]; simp [LineReader.arrive]
  no_newline := h.no_newline
  future_nil hclosed := by rw [LineReader.arrive, hopen] at hclosed; cases hclosed

theorem StandsAt.peerClose {r : LineReader} {cs : List Char} (h : r.StandsAt [] cs) :
    r.peerClose.StandsAt [] cs where
  bytes := h.bytes
  no_newline := h.no_newline
  future_nil _ := rfl

/-- A poll that is not ready only consumes. -/
theorem StandsAt.poll_pending {r r' : LineReader} {future : Bytes} {cs : List Char}
    (h : r.StandsAt future cs) (hpoll : r.poll = (r', none)) : r'.StandsAt future cs := by
  rw [poll] at hpoll
  split at hpoll
  · cases hpoll
  · next hnl =>
    split at hpoll
    · cases hpoll
    · cases hpoll
      refine ⟨by rw [← h.bytes]; simp, ?_, h.future_nil⟩
      simp [h.no_newline, hnl]

/-- A poll that is ready hands out the first line of the text and stands at the rest; it hands out
nothing only at the end. -/
theorem StandsAt.poll_line {r r' : LineReader} {future bs : Bytes} {cs : List Char}
    (h : r.StandsAt future cs) (hpoll : r.poll = (r', some bs)) :
    ∃ line cs', fromUtf8 bs = some (String.ofList line) ∧
      textLines cs = (nonBlankLine line).toList ++ textLines cs' ∧ r'.StandsAt future cs' ∧
      (bs = [] → cs = []) := by
  rcases exists_piece (10 : UInt8) r.unread with hnl | ⟨l, rest, hl, hunread⟩
  · rw [poll, if_neg hnl] at hpoll
    split at hpoll
    · next hclosed =>
      cases hpoll
      have hfuture := h.future_nil hclosed
      have hbytes : r.consumed ++ r.unread = encodeChars cs := by
        rw [← h.bytes, hfuture, List.append_nil]
      have hcs : '\n' ∉ cs := by
        rw [← newline_mem_encodeChars, ← hbytes]
        simp [h.no_newline, hnl]
      refine ⟨cs, [], by rw [hbytes, fromUtf8_encodeChars],
        by rw [textLines_of_not_mem hcs, textLines_nil, List.append_nil],
        ⟨by simp [hfuture], by simp, h.future_nil⟩, fun hnil => ?_⟩
      rw [hbytes] at hnil
      exact encodeChars_eq_nil.mp hnil
    · cases hpoll
  · rw [poll_of_newline hl hunread] at hpoll
    cases hpoll
    have hline : (10 : UInt8) ∉ r.consumed ++ l := by simp [h.no_newline, hl]
    have hbytes : encodeChars cs = (r.consumed ++ l) ++ 10 :: (rest ++ future) := by
      rw [← h.bytes, hunread]
      simp
    obtain ⟨piece, cs', rfl, hpiece, hl', hrest⟩ := exists_of_utf8_eq_append hline hbytes
    have hnl : String.utf8EncodeChar '\n' = [10] := by decide
    refine ⟨piece ++ ['\n'], cs', ?_, textLines_line hpiece cs',
      ⟨by simp [hrest], by simp, h.future_nil⟩, by simp⟩
    rw [← hl', ← fromUtf8_encodeChars, encodeChars_append, encodeChars_cons, encodeChars_nil, hnl,
      List.append_nil]

/-- The consumed bytes are text of white space only. -/
def ConsumedBlank (r : LineReader) : Prop :=
  ∃ w ∈ fromUtf8 r.consumed, w.toList.all isWhitespace = true

instance (r : LineReader) : Decidable r.ConsumedBlank :=
  inferInstanceAs (Decidable (∃ w ∈ fromUtf8 r.consumed, w.toList.all isWhitespace = true))

/-- Dropping consumed white space loses no line. -/
theorem StandsAt.cancel_blank {r : LineReader} {future : Bytes} {cs : List Char}
    (h : r.StandsAt future cs) (hblank : r.ConsumedBlank) :
    ∃ cs', textLines cs = textLines cs' ∧ r.cancel.StandsAt future cs' := by
  obtain ⟨w, htext, hall⟩ := hblank
  have hconsumed := fromUtf8_eq_some htext
  have hw := List.all_eq_true.mp hall
  have hbytes : encodeChars cs = encodeChars w.toList ++ (r.unread ++ future) := by
    rw [← h.bytes, hconsumed, List.append_assoc]
  obtain ⟨z, rfl, hz⟩ := exists_of_utf8_prefix hbytes
  have hnl : '\n' ∉ w.toList := by
    rw [← newline_mem_encodeChars, ← hconsumed]
    exact h.no_newline
  exact ⟨z, textLines_append hw hnl z, by simp [cancel, hz], by simp [cancel], h.future_nil⟩

end LineReader

end AzcoinPool
