import AzcoinPool.Pool.Steps

/-!
# The lines of a session

What a session passes to JSON parsing are the lines of what its miner sends. However the bytes
arrive and the polls fall, the lines parsed so far and the lines of the bytes still to be read are
the lines of the whole text, as long as a job that comes in drops nothing but white space
(`linesParsed_of_runsTo`).
-/

namespace AzcoinPool

variable {env : PoolEnv} {parseJson : String → Option Sv1Request}

/-- The lines of a text of which the session has seen the beginning, `future` being the bytes that
have not arrived: the lines that were parsed, and behind them those of the text it stands at. -/
def Session.Framed (x : Session) : Prop :=
  ∀ (text : List Char) (future : Bytes), x.arrived ++ future = encodeChars text →
    (x.reader.closed = true → future = []) →
      ∃ rest, x.reader.StandsAt future rest ∧ textLines text = x.parsed ++ textLines rest

namespace Session.Framed

variable {x : Session}

theorem new : Framed {} := by
  intro text future harrived hclosed
  exact ⟨text, ⟨harrived, by simp, hclosed⟩, rfl⟩

/-- Bytes that arrive were to come before. -/
theorem arrive (h : x.Framed) (bytes : Bytes) (hopen : x.reader.closed = false) :
    Framed { x with reader := x.reader.arrive bytes, arrived := x.arrived ++ bytes } := by
  intro text future harrived _
  obtain ⟨rest, hstands, hlines⟩ := h text (bytes ++ future)
    (by rw [← harrived, List.append_assoc]) (fun hclosed => by rw [hopen] at hclosed; cases hclosed)
  exact ⟨rest, hstands.arrive hopen, hlines⟩

/-- Nothing is to come once the peer has closed. -/
theorem peerClose (h : x.Framed) : Framed { x with reader := x.reader.peerClose } := by
  intro text future harrived hclosed
  obtain rfl := hclosed rfl
  obtain ⟨rest, hstands, hlines⟩ := h text [] harrived (fun _ => rfl)
  exact ⟨rest, hstands.peerClose, hlines⟩

theorem readPending (h : x.Framed) {reader : LineReader} (hpoll : x.reader.poll = (reader, none)) :
    Framed { x with reader := reader } := by
  intro text future harrived hclosed
  dsimp only at hclosed
  rw [LineReader.closed_of_poll hpoll] at hclosed
  obtain ⟨rest, hstands, hlines⟩ := h text future harrived hclosed
  exact ⟨rest, hstands.poll_pending hpoll, hlines⟩

/-- Behind a poll that reads a line, the session stands at the rest. -/
theorem readLine (h : x.Framed) {reader : LineReader} {bytes : Bytes}
    (hpoll : x.reader.poll = (reader, some bytes)) {line : String}
    (htext : fromUtf8 bytes = some line) :
    Framed { x with
      reader := reader
      parsed := x.parsed ++ if trim line = "" then [] else [trim line] } := by
  intro text future harrived hclosed
  dsimp only at hclosed
  rw [LineReader.closed_of_poll hpoll] at hclosed
  obtain ⟨rest, hstands, hlines⟩ := h text future harrived hclosed
  obtain ⟨cs, rest', htext', hline, hstands', -⟩ := hstands.poll_line hpoll
  obtain rfl : String.ofList cs = line := Option.some.inj (htext'.symm.trans htext)
  have hnonBlank := nonBlankLine_toList (String.ofList cs)
  rw [String.toList_ofList] at hnonBlank
  refine ⟨rest', hstands', ?_⟩
  rw [hlines, hline, hnonBlank, List.append_assoc]
  split <;> rfl

/-- A session ends when its stream does, behind the last line. -/
theorem readEnd (h : x.Framed) {reader : LineReader} {bytes : Bytes}
    (hpoll : x.reader.poll = (reader, some bytes)) (hend : fromUtf8 bytes = none ∨ bytes = []) :
    Framed { x with reader := reader } := by
  obtain hnone | rfl := hend
  · intro text future harrived hclosed
    dsimp only at hclosed
    rw [LineReader.closed_of_poll hpoll] at hclosed
    obtain ⟨rest, hstands, -⟩ := h text future harrived hclosed
    obtain ⟨cs, -, htext, -⟩ := hstands.poll_line hpoll
    rw [hnone] at htext
    cases htext
  · have hempty : fromUtf8 [] = some "" := by decide
    have htrim : trim "" = "" := by decide
    simpa [htrim] using h.readLine hpoll hempty

/-- A job that comes in drops white space at most. -/
theorem cancel (h : x.Framed) (hblank : x.reader.ConsumedBlank) :
    Framed { x with reader := x.reader.cancel } := by
  intro text future harrived hclosed
  obtain ⟨rest, hstands, hlines⟩ := h text future harrived hclosed
  obtain ⟨rest', hrest, hstands'⟩ := hstands.cancel_blank hblank
  exact ⟨rest', hstands', by rw [hlines, hrest]⟩

theorem step (h : x.Framed) {shared shared' : Shared} {x' : Session} {e : SessionEvent}
    (hblank : e = .pollRecv → x.reader.ConsumedBlank)
    (hstep : StepTo env parseJson shared x e shared' x') : x'.Framed := by
  cases hstep with
  | arrive hopen => exact h.arrive _ hopen
  | peerClose => exact h.peerClose
  | readPending _ poll => exact h.readPending poll
  | readEnd _ poll bad => exact h.readEnd poll bad
  | readBlank _ poll text blank =>
    have hline := h.readLine poll text
    rw [if_pos blank, List.append_nil] at hline
    exact hline
  | readInvalid _ poll text blank | readDone _ poll text blank | readAuthorize _ poll text blank
  | readSubmit _ poll text blank =>
    have hline := h.readLine poll text
    rw [if_neg blank] at hline
    exact hline
  | recvLagged | recvSkip | recvNotify => exact h.cancel (hblank rfl)
  | _ => exact h

end Session.Framed

/-- The session whose broadcast branch wins in the event. -/
def Event.receiving : Event → Option Nat
  | .session s .pollRecv => some s
  | _ => none

/-- A job that comes in to the session meets it with nothing but white space consumed of a line. -/
def CancelsBlank (s : Nat) (p : Pool) (e : Event) : Prop :=
  e.receiving = some s → ∀ x ∈ p.sessions[s]?, x.reader.ConsumedBlank

instance (s : Nat) (p : Pool) (e : Event) : Decidable (CancelsBlank s p e) :=
  inferInstanceAs (Decidable (e.receiving = some s → ∀ x ∈ p.sessions[s]?, _))

theorem framed_of_runsTo {s : Nat} {es : List Event} {p : Pool}
    (h : (poolMachine env parseJson).RunsTo (CancelsBlank s) es p) {x : Session}
    (hx : p.sessions[s]? = some x) : x.Framed := by
  refine session_invariant .new ?_ (fun hframed _ => hframed) h hx
  intro es p x x' e shared _ hx hok hframed hstep
  refine hframed.step ?_ hstep
  rintro rfl
  exact hok rfl x hx

/-- In every run in which the jobs that come in to the session drop nothing but white space:
whatever text the miner is sending, the lines passed to JSON parsing, and behind them the lines of
the bytes still to be read, are the lines of the text; once everything is read, they are the lines
of the text. -/
theorem linesParsed_of_runsTo {s : Nat} {es : List Event} {p : Pool}
    (h : (poolMachine env parseJson).RunsTo (CancelsBlank s) es p) {x : Session}
    (hx : p.sessions[s]? = some x) {text : List Char} {future : Bytes}
    (harrived : x.arrived ++ future = encodeChars text)
    (hclosed : x.reader.closed = true → future = []) :
    (∃ rest, x.reader.consumed ++ x.reader.unread ++ future = encodeChars rest ∧
      textLines text = x.parsed ++ textLines rest) ∧
    (x.reader.consumed ++ x.reader.unread ++ future = [] → x.parsed = textLines text) := by
  obtain ⟨rest, hstands, hlines⟩ := framed_of_runsTo h hx text future harrived hclosed
  refine ⟨⟨rest, hstands.bytes, hlines⟩, fun hread => ?_⟩
  have hrest : rest = [] := encodeChars_eq_nil.mp (hstands.bytes.symm.trans hread)
  rw [hlines, hrest, textLines_nil, List.append_nil]

/-- Bytes arrive in two parts; between them the session reads what has come, and is then interrupted
by a job. -/
def interruptedArrival (first second : Bytes) : List Event :=
  [.connect, .session 0 (.arrive first), .session 0 .pollRead, .session 0 .pollRead,
    .poll (.ok (some (fixtureTemplate []))), .session 0 .pollRecv, .session 0 (.arrive second),
    .session 0 .pollRead]

/-- A request behind white space is read when the job comes in between the two. -/
theorem linesParsed_fixture : ∃ p x,
    (poolMachine fixtureEnv fixtureJson).RunsTo (CancelsBlank 0)
      (interruptedArrival (utf8 "\n  ") (utf8 (authorizeLine ++ "\n"))) p ∧
    p.sessions[0]? = some x ∧ x.parsed = textLines ("\n  " ++ authorizeLine ++ "\n").toList := by
  have hany : (((poolMachine fixtureEnv fixtureJson).guard (CancelsBlank 0)).run
      (interruptedArrival (utf8 "\n  ") (utf8 (authorizeLine ++ "\n")))).any (fun p =>
        (p.sessions[0]?).any fun x =>
          decide (x.arrived ++ [] = encodeChars ("\n  " ++ authorizeLine ++ "\n").toList ∧
            x.reader.consumed ++ x.reader.unread ++ [] = [])) = true := by
    decide +kernel
  obtain ⟨p, hp, hany⟩ := (Option.any_eq_true _ _).mp hany
  obtain ⟨x, hx, hprops⟩ := (Option.any_eq_true _ _).mp hany
  obtain ⟨harrived, hread⟩ := of_decide_eq_true hprops
  have h := Machine.runsTo_of_run_guard hp
  exact ⟨p, x, h, hx, (linesParsed_of_runsTo h hx harrived fun _ => rfl).2 hread⟩

/-- A request is lost when the job comes in between it and its newline. -/
theorem not_linesParsed_fixture : ∃ p x,
    (poolMachine fixtureEnv fixtureJson).run
      (interruptedArrival (utf8 authorizeLine) (utf8 "\n")) = some p ∧
    p.sessions[0]? = some x ∧ x.arrived = encodeChars (authorizeLine ++ "\n").toList ∧
    x.reader.consumed ++ x.reader.unread = [] ∧
    x.parsed ≠ textLines (authorizeLine ++ "\n").toList := by
  have hany : ((poolMachine fixtureEnv fixtureJson).run
      (interruptedArrival (utf8 authorizeLine) (utf8 "\n"))).any (fun p =>
        (p.sessions[0]?).any fun x =>
          decide (x.arrived = encodeChars (authorizeLine ++ "\n").toList ∧
            x.reader.consumed ++ x.reader.unread = [] ∧
            x.parsed ≠ textLines (authorizeLine ++ "\n").toList)) = true := by
    decide +kernel
  obtain ⟨p, hp, hany⟩ := (Option.any_eq_true _ _).mp hany
  obtain ⟨x, hx, hprops⟩ := (Option.any_eq_true _ _).mp hany
  exact ⟨p, x, hp, hx, of_decide_eq_true hprops⟩

end AzcoinPool
