import ServerBox.Ssh.SocketHead

/-!
# What is read of a socket

However its bytes are cut into chunks and whatever the order of the moves, a program takes the
pieces that it takes of the whole stream, and the rest is what it leaves (`Session.reads`). No
session is stuck before that (`Session.goesOn`), and none goes on for ever (`Session.variant_lt`).
-/

namespace ServerBox.Ssh.Socks5

open ServerBox.Std

variable {Error Message Value : Type}

def bytesComing (coming : List (Delivery Error)) : Bytes :=
  coming.flatMap fun
    | .data chunk => chunk
    | _ => []

@[simp] theorem bytesComing_nil : bytesComing ([] : List (Delivery Error)) = [] := rfl

@[simp] theorem bytesComing_data (chunk : Bytes) (coming : List (Delivery Error)) :
    bytesComing (.data chunk :: coming) = chunk ++ bytesComing coming := by
  simp [bytesComing]

@[simp] theorem bytesComing_done : bytesComing [(.done : Delivery Error)] = [] := rfl

theorem bytesComing_chunks (chunks : List Bytes) :
    bytesComing (chunks.map .data ++ [(.done : Delivery Error)]) = chunks.flatten := by
  induction chunks with
  | nil => rfl
  | cons chunk chunks inductionHypothesis =>
      rw [List.map_cons, List.cons_append, bytesComing_data, inductionHypothesis, List.flatten_cons]

namespace Session

def ahead (session : Session Error Message Value) : Bytes :=
  session.head.buffer ++ bytesComing session.coming

/-- A socket without errors, that is done once its chunks are delivered. -/
structure Clean (session : Session Error Message Value) : Prop where
  noError : session.head.error = none
  delivers : session.coming = [] ∧ session.head.ended = true ∨
    ∃ chunks : List Bytes, session.coming = chunks.map .data ++ [.done] ∧
      session.head.ended = false

/-- What a program came to is what it was to come to. -/
structure Came (expected : Taking.Result UInt8 Message Value)
    (session : Session Error Message Value) : Prop where
  outcome : session.consumer.outcome = some expected.value
  taken : session.taken = expected.taken
  said : session.said = expected.said

/-- No one waits for bytes, and the socket is paused as long as it has any. -/
structure Idle (session : Session Error Message Value) : Prop where
  notWaiting : session.head.waiting = false
  paused : session.head.ended = false → session.head.pauses = 1

/-- What a program comes to from here, over the bytes ahead, is what it was to come to. -/
inductive Reads (expected : Taking.Result UInt8 Message Value)
    (session : Session Error Message Value) : Prop where
  | running (program) (isRunning : session.consumer = .running program)
      (untaken : session.head.rest = none) (idle : session.Idle)
      (comes : (program.run session.ahead).after session.taken session.said = expected)
  | waiting (next) (isWaiting : session.consumer = .awaiting next .pending)
      (untaken : session.head.rest = none) (waits : session.head.waiting = true)
      (flows : session.head.pauses = 0) (isOpen : session.head.ended = false)
      (short : session.head.buffer.length < session.head.wanted)
      (comes : ((Taking.take session.head.wanted next).run session.ahead).after session.taken
        session.said = expected)
  | answered (next) (bytes) (isAnswered : session.consumer = .awaiting next (.piece bytes))
      (untaken : session.head.rest = none) (idle : session.Idle)
      (comes : (((next bytes).run session.ahead).afterPiece bytes).after session.taken
        session.said = expected)
  | refused (next) (failure) (isRefused : session.consumer = .awaiting next (.failed failure))
      (untaken : session.head.rest = none) (idle : session.Idle)
      (comes : (⟨[], [], none, session.ahead⟩ : Taking.Result UInt8 Message Value).after
        session.taken session.said = expected)
  | failed (failure) (isFailed : session.consumer = .failed failure)
      (untaken : session.head.rest = none) (idle : session.Idle)
      (comes : (⟨[], [], none, session.ahead⟩ : Taking.Result UInt8 Message Value).after
        session.taken session.said = expected)
  | unread (isRest : session.head.rest = some ⟨false, false, []⟩) (idle : session.Idle)
      (came : session.Came expected) (left : session.ahead = expected.left)
  | read (paused : Bool) (chunks : List Bytes)
      (isRest : session.head.rest = some ⟨true, paused,
        chunks.map .data ++ if session.head.ended = true then [.close] else []⟩)
      (empty : session.head.buffer = [])
      (flows : session.head.ended = false → session.head.pauses = if paused = true then 1 else 0)
      (came : session.Came expected)
      (left : chunks.flatten ++ bytesComing session.coming = expected.left)

variable {expected : Taking.Result UInt8 Message Value}
variable {session after : Session Error Message Value}

theorem start_reads (program : Taking UInt8 Message Value) (chunks : List Bytes) :
    Clean (start program chunks : Session Error Message Value) ∧
      Reads (program.run chunks.flatten) (start program chunks : Session Error Message Value) := by
  refine ⟨⟨rfl, .inr ⟨chunks, rfl, rfl⟩⟩, .running program rfl rfl ⟨rfl, fun _ => rfl⟩ ?_⟩
  rw [show ahead (start program chunks : Session Error Message Value) = chunks.flatten from
    bytesComing_chunks chunks]
  exact Taking.Result.after_nil _

/-! ### Each move -/

/-- A program that is through has come to what it was to come to. -/
theorem Reads.came (reads : session.Reads expected)
    (through : session.consumer.outcome.isSome = true) : session.Came expected := by
  cases reads with
  | running program isRunning untaken idle comes =>
      rw [isRunning] at through
      cases program with
      | give value =>
          refine ⟨?_, ?_, ?_⟩
          · rw [isRunning, ← comes]
            rfl
          · simp [← comes, Taking.run, Taking.Result.after]
          · simp [← comes, Taking.run, Taking.Result.after]
      | say message next => cases through
      | take count next => cases through
  | waiting next isWaiting => simp [isWaiting, Consumer.outcome] at through
  | answered next bytes isAnswered => simp [isAnswered, Consumer.outcome] at through
  | refused next failure isRefused => simp [isRefused, Consumer.outcome] at through
  | failed failure isFailed untaken idle comes =>
      refine ⟨?_, ?_, ?_⟩
      · rw [isFailed, ← comes]
        rfl
      · simp [← comes, Taking.Result.after]
      · simp [← comes, Taking.Result.after]
  | unread isRest idle came left => exact came
  | read paused chunks isRest empty flows came left => exact came

theorem take_eq {head : SocketHead Error} (count : Nat) (noError : head.error = none)
    (untaken : head.rest = none) (notWaiting : head.waiting = false) :
    head.take count =
      if count ≤ head.buffer.length then
        some ({ head with buffer := head.buffer.drop count }, .piece (head.buffer.take count))
      else if head.ended = true then some (head, .failed .closed)
      else some ({ head with wanted := count, waiting := true, pauses := head.pauses - 1 },
        .pending) := by
  simp [SocketHead.take, SocketHead.split, SocketHead.resume, noError, untaken, notWaiting]

theorem Clean.coming_nil (clean : session.Clean) (ended : session.head.ended = true) :
    session.coming = [] := by
  rcases clean.delivers with ⟨isNil, -⟩ | ⟨chunks, -, notEnded⟩
  · exact isNil
  · rw [notEnded] at ended
    cases ended

theorem proceed_of_through (through : session.consumer.outcome.isSome = true) :
    session.proceed = none := by
  unfold proceed
  cases isConsumer : session.consumer with
  | running program => cases program <;> simp_all [Consumer.outcome]
  | awaiting next future => simp [isConsumer, Consumer.outcome] at through
  | failed failure => rfl

theorem Came.through (came : session.Came expected) : session.consumer.outcome.isSome = true := by
  rw [came.outcome]
  rfl

/-- The bytes ahead, from a piece of the buffer on. -/
theorem ahead_of_take (session : Session Error Message Value) (count : Nat) :
    session.ahead = session.head.buffer.take count ++
      (session.head.buffer.drop count ++ bytesComing session.coming) := by
  rw [← List.append_assoc, List.take_append_drop, ahead]

theorem take_reads {count : Nat} {next : Bytes → Taking UInt8 Message Value}
    (clean : session.Clean) (untaken : session.head.rest = none) (idle : session.Idle)
    (comes : ((Taking.take count next).run session.ahead).after session.taken session.said =
      expected)
    {head : SocketHead Error} {future : Taken Error}
    (leads : session.head.take count = some (head, future)) :
    { session with head, consumer := .awaiting next future }.Clean ∧
      { session with head, consumer := .awaiting next future }.Reads expected := by
  rw [take_eq count clean.noError untaken idle.notWaiting] at leads
  split at leads
  next enough =>
      obtain ⟨rfl, rfl⟩ := Prod.mk.inj (Option.some.inj leads)
      refine ⟨⟨clean.noError, clean.delivers⟩, .answered next _ rfl untaken ⟨idle.1, idle.2⟩ ?_⟩
      rw [← comes, ahead_of_take session count,
        Taking.run_take_append (List.length_take_of_le enough)]
      rfl
  next short =>
      split at leads
      next ended =>
          obtain ⟨rfl, rfl⟩ := Prod.mk.inj (Option.some.inj leads)
          refine ⟨⟨clean.noError, clean.delivers⟩, .refused next _ rfl untaken ⟨idle.1, idle.2⟩ ?_⟩
          have isShort : session.ahead.length < count := by
            simpa [ahead, clean.coming_nil ended] using short
          rw [← comes, Taking.run_take_of_lt isShort]
          rfl
      next notEnded =>
          obtain ⟨rfl, rfl⟩ := Prod.mk.inj (Option.some.inj leads)
          have isOpen : session.head.ended = false := Bool.not_eq_true _ ▸ notEnded
          refine ⟨⟨clean.noError, clean.delivers⟩, .waiting next rfl untaken rfl ?_ isOpen
            (Nat.not_le.mp short) comes⟩
          simp [idle.paused isOpen]

theorem proceed_reads (clean : session.Clean) (reads : session.Reads expected)
    (leads : session.proceed = some after) : after.Clean ∧ after.Reads expected := by
  cases reads with
  | running program isRunning untaken idle comes =>
      rw [proceed, isRunning] at leads
      cases program with
      | give value => cases leads
      | say message next =>
          obtain rfl := Option.some.inj leads
          refine ⟨⟨clean.noError, clean.delivers⟩, .running next rfl untaken ⟨idle.1, idle.2⟩ ?_⟩
          rw [← comes]
          exact (Taking.Result.after_afterMessage _ _ _ _).symm
      | take count next =>
          obtain ⟨⟨head, future⟩, taking, rfl⟩ := Option.map_eq_some_iff.mp leads
          exact take_reads clean untaken idle comes taking
  | waiting next isWaiting => simp [proceed, isWaiting] at leads
  | answered next bytes isAnswered untaken idle comes =>
      rw [proceed, isAnswered] at leads
      obtain rfl := Option.some.inj leads
      refine ⟨⟨clean.noError, clean.delivers⟩, .running _ rfl untaken ⟨idle.1, idle.2⟩ ?_⟩
      rw [← comes]
      exact (Taking.Result.after_afterPiece _ _ _ _).symm
  | refused next failure isRefused untaken idle comes =>
      rw [proceed, isRefused] at leads
      obtain rfl := Option.some.inj leads
      exact ⟨⟨clean.noError, clean.delivers⟩, .failed failure rfl untaken ⟨idle.1, idle.2⟩ comes⟩
  | failed failure isFailed => simp [proceed, isFailed] at leads
  | unread isRest idle came left => simp [proceed_of_through came.through] at leads
  | read paused chunks isRest empty flows came left =>
      simp [proceed_of_through came.through] at leads

/-- Nothing is delivered to one who does not wait. -/
theorem Idle.deliver_eq (idle : session.Idle) (clean : session.Clean) :
    session.deliver = none := by
  unfold deliver
  rcases clean.delivers with ⟨isNil, -⟩ | ⟨chunks, isComing, isOpen⟩
  · rw [isNil]
  · cases isDelivery : session.coming with
    | nil => rfl
    | cons delivery coming => exact if_neg (by simp [idle.paused isOpen])

theorem receive_data_waiting {head : SocketHead Error} (chunk : Bytes) (untaken : head.rest = none)
    (waits : head.waiting = true) :
    head.receive (.data chunk) =
      if (head.buffer ++ chunk).length < head.wanted then
        ({ head with buffer := head.buffer ++ chunk }, none)
      else ({ head with
          buffer := (head.buffer ++ chunk).drop head.wanted
          waiting := false
          pauses := head.pauses + 1 },
        some (.piece ((head.buffer ++ chunk).take head.wanted))) := by
  simp [SocketHead.receive, SocketHead.onData, SocketHead.split, SocketHead.pause, untaken, waits]

/-- The bytes ahead, once a chunk brought as many as were wanted. -/
theorem ahead_of_enough {chunk : Bytes} {coming : List (Delivery Error)}
    (isComing : session.coming = .data chunk :: coming) :
    session.ahead = (session.head.buffer ++ chunk).take session.head.wanted ++
      ((session.head.buffer ++ chunk).drop session.head.wanted ++ bytesComing coming) := by
  rw [← List.append_assoc, List.take_append_drop, ahead, isComing, bytesComing_data,
    List.append_assoc]

/-- What a delivery does to one who waits. -/
theorem deliver_waiting {next : Bytes → Taking UInt8 Message Value} (clean : session.Clean)
    (isWaiting : session.consumer = .awaiting next .pending) (untaken : session.head.rest = none)
    (waits : session.head.waiting = true) (isOpen : session.head.ended = false)
    (leads : session.deliver = some after) :
    session.coming = [.done] ∧ after = { session with
        head := { session.head with ended := true, waiting := false }
        coming := []
        consumer := .awaiting next (.failed .closed) } ∨
    ∃ chunk, ∃ chunks : List Bytes, session.coming = .data chunk :: (chunks.map .data ++ [.done]) ∧
      ((session.head.buffer ++ chunk).length < session.head.wanted ∧ after = { session with
          head := { session.head with buffer := session.head.buffer ++ chunk }
          coming := chunks.map .data ++ [.done] } ∨
        session.head.wanted ≤ (session.head.buffer ++ chunk).length ∧ after = { session with
          head := { session.head with
            buffer := (session.head.buffer ++ chunk).drop session.head.wanted
            waiting := false
            pauses := session.head.pauses + 1 }
          coming := chunks.map .data ++ [.done]
          consumer := .awaiting next
            (.piece ((session.head.buffer ++ chunk).take session.head.wanted)) }) := by
  obtain ⟨-, ended⟩ | ⟨chunks, isComing, -⟩ := clean.delivers
  · simp [isOpen] at ended
  cases chunks with
  | nil =>
      left
      simp only [deliver, isComing, List.map_nil, List.nil_append, isWaiting, SocketHead.receive,
        SocketHead.onDone, untaken, waits, if_true, Consumer.completed] at leads
      split at leads
      next =>
          refine ⟨isComing, ?_⟩
          rw [← Option.some.inj leads]
          simp only [untaken]
      next => cases leads
  | cons chunk chunks =>
      right
      refine ⟨chunk, chunks, isComing, ?_⟩
      simp only [deliver, isComing, List.map_cons, List.cons_append,
        receive_data_waiting chunk untaken waits] at leads
      split at leads
      next =>
          split at leads
          next short =>
              refine .inl ⟨short, ?_⟩
              rw [← Option.some.inj leads, Consumer.completed_none]
          next enough =>
              refine .inr ⟨Nat.not_lt.mp enough, ?_⟩
              rw [← Option.some.inj leads, isWaiting]
              rfl
      next => cases leads

/-- What a delivery does to the rest. -/
theorem deliver_read {rest : Rest Error} (clean : session.Clean)
    (isRest : session.head.rest = some rest) (leads : session.deliver = some after) :
    session.head.ended = false ∧
    (session.coming = [.done] ∧ after = { session with
        head := { session.head with ended := true, rest := some (rest.add [.close]) }
        coming := [] } ∨
    ∃ chunk, ∃ chunks : List Bytes, session.coming = .data chunk :: (chunks.map .data ++ [.done]) ∧
      after = { session with
        head := { session.head with rest := some (rest.add [.data chunk]) }
        coming := chunks.map .data ++ [.done] }) := by
  obtain ⟨isNil, -⟩ | ⟨chunks, isComing, isOpen⟩ := clean.delivers
  · simp [deliver, isNil] at leads
  refine ⟨isOpen, ?_⟩
  cases chunks with
  | nil =>
      simp only [deliver, isComing, List.map_nil, List.nil_append, SocketHead.receive,
        SocketHead.onDone, isRest, Consumer.completed_none] at leads
      split at leads
      next => exact .inl ⟨isComing, (Option.some.inj leads).symm⟩
      next => cases leads
  | cons chunk chunks =>
      simp only [deliver, isComing, List.map_cons, List.cons_append, SocketHead.receive,
        SocketHead.onData, isRest, Consumer.completed_none] at leads
      split at leads
      next => exact .inr ⟨chunk, chunks, isComing, (Option.some.inj leads).symm⟩
      next => cases leads

theorem deliver_reads (clean : session.Clean) (reads : session.Reads expected)
    (leads : session.deliver = some after) : after.Clean ∧ after.Reads expected := by
  cases reads with
  | running program isRunning untaken idle comes => simp [idle.deliver_eq clean] at leads
  | waiting next isWaiting untaken waits flows isOpen short comes =>
      rcases deliver_waiting clean isWaiting untaken waits isOpen leads with
        ⟨isComing, rfl⟩ | ⟨chunk, chunks, isComing, ⟨stillShort, rfl⟩ | ⟨enough, rfl⟩⟩
      · have isAhead : session.ahead = session.head.buffer := by simp [ahead, isComing]
        refine ⟨⟨clean.noError, .inl ⟨rfl, rfl⟩⟩,
          .refused next _ rfl untaken ⟨rfl, fun isOpen => by cases isOpen⟩ ?_⟩
        rw [isAhead, Taking.run_take_of_lt short] at comes
        simpa [ahead] using comes
      · refine ⟨⟨clean.noError, .inr ⟨chunks, rfl, isOpen⟩⟩,
          .waiting next isWaiting untaken waits flows isOpen stillShort ?_⟩
        simpa [ahead, isComing] using comes
      · refine ⟨⟨clean.noError, .inr ⟨chunks, rfl, isOpen⟩⟩,
          .answered next _ rfl untaken ⟨rfl, fun _ => by simp [flows]⟩ ?_⟩
        rw [ahead_of_enough isComing,
          Taking.run_take_append (List.length_take_of_le enough)] at comes
        exact comes
  | answered next bytes isAnswered untaken idle comes => simp [idle.deliver_eq clean] at leads
  | refused next failure isRefused untaken idle comes => simp [idle.deliver_eq clean] at leads
  | failed failure isFailed untaken idle comes => simp [idle.deliver_eq clean] at leads
  | unread isRest idle came left => simp [idle.deliver_eq clean] at leads
  | read paused chunks isRest empty flows came left =>
      obtain ⟨isOpen, ⟨isComing, rfl⟩ | ⟨chunk, later, isComing, rfl⟩⟩ :=
        deliver_read clean isRest leads
      · refine ⟨⟨clean.noError, .inl ⟨rfl, rfl⟩⟩, .read paused chunks ?_ empty
          (fun isOpen => by cases isOpen) ⟨came.1, came.2, came.3⟩ ?_⟩
        · simp [Rest.add, isOpen]
        · simpa [isComing] using left
      · refine ⟨⟨clean.noError, .inr ⟨later, rfl, isOpen⟩⟩, .read paused (chunks ++ [chunk]) ?_
          empty flows ⟨came.1, came.2, came.3⟩ ?_⟩
        · simp [Rest.add, isOpen]
        · simpa [isComing] using left

/-- What a program that is through leaves is ahead. -/
theorem Reads.left_eq (reads : session.Reads expected)
    (through : session.consumer.outcome.isSome = true) (untaken : session.head.rest = none) :
    session.Idle ∧ session.ahead = expected.left := by
  cases reads with
  | running program isRunning untaken idle comes =>
      rw [isRunning] at through
      cases program with
      | give value =>
          rw [← comes]
          exact ⟨idle, rfl⟩
      | say message next => cases through
      | take count next => cases through
  | waiting next isWaiting => simp [isWaiting, Consumer.outcome] at through
  | answered next bytes isAnswered => simp [isAnswered, Consumer.outcome] at through
  | refused next failure isRefused => simp [isRefused, Consumer.outcome] at through
  | failed failure isFailed untaken idle comes =>
      rw [← comes]
      exact ⟨idle, rfl⟩
  | unread isRest => simp [isRest] at untaken
  | read paused chunks isRest => simp [isRest] at untaken

/-- The rest starts with what is buffered. -/
theorem onListen_reads (clean : session.Clean) (idle : session.Idle)
    (came : session.Came expected) (left : session.ahead = expected.left) :
    { session with head := session.head.onListen ⟨true, false, []⟩ }.Clean ∧
      { session with head := session.head.onListen ⟨true, false, []⟩ }.Reads expected := by
  let chunks : List Bytes :=
    if session.head.buffer.isEmpty = true then [] else [session.head.buffer]
  have isBuffered : chunks.flatten = session.head.buffer := by
    simp only [chunks]
    split
    next empty => simpa using (List.isEmpty_iff.mp empty).symm
    next => simp
  have isData : (if session.head.buffer.isEmpty = true then [] else [.data session.head.buffer] :
      List (Forwarded Error)) = chunks.map .data := by
    simp only [chunks]
    split <;> rfl
  have isLeft : chunks.flatten ++ bytesComing session.coming = expected.left := by
    rw [isBuffered, ← left]
    rfl
  simp only [SocketHead.onListen, clean.noError, isData, List.append_nil, Rest.add, List.nil_append]
  split
  next ended =>
      refine ⟨⟨rfl, .inl ⟨clean.coming_nil ended, ended⟩⟩, .read false chunks ?_ rfl
        (fun isOpen => by simp [ended] at isOpen) ⟨came.1, came.2, came.3⟩ isLeft⟩
      simp [ended]
  next isOpen =>
      refine ⟨⟨rfl, clean.delivers⟩, .read false chunks ?_ rfl (fun isOpen => ?_)
        ⟨came.1, came.2, came.3⟩ isLeft⟩
      · simp [SocketHead.resume, isOpen]
      · have once := idle.paused isOpen
        simp [SocketHead.resume, once]

theorem Reads.of_unread (reads : session.Reads expected) {paused : Bool}
    {forwarded : List (Forwarded Error)}
    (isRest : session.head.rest = some ⟨false, paused, forwarded⟩) :
    (⟨true, paused, forwarded⟩ : Rest Error) = ⟨true, false, []⟩ ∧ session.Idle ∧
      session.Came expected ∧ session.ahead = expected.left := by
  cases reads with
  | unread isUnread idle came left =>
      rw [isUnread] at isRest
      cases isRest
      exact ⟨rfl, idle, came, left⟩
  | read paused chunks isRead => simp [isRead] at isRest
  | running program isRunning untaken => simp [untaken] at isRest
  | waiting next isWaiting untaken => simp [untaken] at isRest
  | answered next bytes isAnswered untaken => simp [untaken] at isRest
  | refused next failure isRefused untaken => simp [untaken] at isRest
  | failed failure isFailed untaken => simp [untaken] at isRest

theorem Reads.of_read (reads : session.Reads expected) {paused : Bool}
    {forwarded : List (Forwarded Error)}
    (isRest : session.head.rest = some ⟨true, paused, forwarded⟩) :
    ∃ chunks : List Bytes,
      forwarded = chunks.map .data ++ (if session.head.ended = true then [.close] else []) ∧
      session.head.buffer = [] ∧
      (session.head.ended = false → session.head.pauses = if paused = true then 1 else 0) ∧
      session.Came expected ∧ chunks.flatten ++ bytesComing session.coming = expected.left := by
  cases reads with
  | read wasPaused chunks isRead empty flows came left =>
      rw [isRead] at isRest
      cases isRest
      exact ⟨chunks, rfl, empty, flows, came, left⟩
  | unread isUnread => simp [isUnread] at isRest
  | running program isRunning untaken => simp [untaken] at isRest
  | waiting next isWaiting untaken => simp [untaken] at isRest
  | answered next bytes isAnswered untaken => simp [untaken] at isRest
  | refused next failure isRefused untaken => simp [untaken] at isRest
  | failed failure isFailed untaken => simp [untaken] at isRest

/-- Whatever the move, the program comes to what it was to come to. -/
theorem next_reads {move : Move} (clean : session.Clean) (reads : session.Reads expected)
    (leads : session.next move = some after) : after.Clean ∧ after.Reads expected := by
  cases move with
  | deliver => exact deliver_reads clean reads leads
  | proceed => exact proceed_reads clean reads leads
  | rest =>
      rw [next] at leads
      split at leads
      next through =>
          obtain ⟨head, taking, rfl⟩ := Option.map_eq_some_iff.mp leads
          rw [SocketHead.takeRest] at taking
          split at taking
          next => cases taking
          next notTaken =>
              obtain rfl := Option.some.inj taking
              have untaken : session.head.rest = none := by simpa using notTaken
              have came := reads.came through
              obtain ⟨idle, left⟩ := reads.left_eq through untaken
              exact ⟨⟨clean.noError, clean.delivers⟩,
                .unread rfl ⟨idle.1, idle.2⟩ ⟨came.1, came.2, came.3⟩ left⟩
      next => cases leads
  | listen =>
      rw [next] at leads
      split at leads
      next paused forwarded isRest =>
          obtain rfl := Option.some.inj leads
          obtain ⟨same, idle, came, left⟩ := reads.of_unread isRest
          rw [same]
          exact onListen_reads clean idle came left
      next => cases leads
  | pause =>
      rw [next] at leads
      split at leads
      next forwarded isRest =>
          obtain rfl := Option.some.inj leads
          obtain ⟨chunks, rfl, empty, flows, came, left⟩ := reads.of_read isRest
          refine ⟨⟨clean.noError, clean.delivers⟩, .read true chunks rfl empty (fun isOpen => ?_)
            ⟨came.1, came.2, came.3⟩ left⟩
          have once := flows isOpen
          simp [SocketHead.pause, once]
      next => cases leads
  | resume =>
      rw [next] at leads
      split at leads
      next forwarded isRest =>
          obtain rfl := Option.some.inj leads
          obtain ⟨chunks, rfl, empty, flows, came, left⟩ := reads.of_read isRest
          refine ⟨⟨clean.noError, clean.delivers⟩, .read false chunks rfl empty (fun isOpen => ?_)
            ⟨came.1, came.2, came.3⟩ left⟩
          have once := flows isOpen
          simp [SocketHead.resume, once]
      next => cases leads

/-- In every session, the program comes to what it comes to over the whole stream. -/
theorem reads {program : Taking UInt8 Message Value} {chunks : List Bytes}
    (reached : (system program chunks).Reachable session) :
    session.Clean ∧ session.Reads (program.run chunks.flatten) := by
  refine @System.Reached.holds _ _ _ _
    (fun session => session.Clean ∧ session.Reads (program.run chunks.flatten))
    (fun session starts => ?_)
    (fun session move after holds _ leads => next_reads holds.1 holds.2 leads) _ reached
  obtain rfl : session = start program chunks := starts
  exact start_reads program chunks

/-- The bytes that whoever listens to the rest was given. -/
def restBytes (session : Session Error Message Value) : Bytes :=
  match session.head.rest with
  | some rest => rest.forwarded.flatMap fun
      | .data chunk => chunk
      | _ => []
  | none => []

/-- The rest is listened to, and all of it is there. -/
def Complete (session : Session Error Message Value) : Prop :=
  ∃ paused, ∃ chunks : List Bytes,
    session.head.rest = some ⟨true, paused, chunks.map .data ++ [.close]⟩

/-- What a session has come to so far is of what a program comes to over the whole stream. -/
structure Follows (expected : Taking.Result UInt8 Message Value)
    (session : Session Error Message Value) : Prop where
  taken : session.taken <+: expected.taken
  said : session.said <+: expected.said
  came : ∀ outcome, session.consumer.outcome = some outcome →
    outcome = expected.value ∧ session.taken = expected.taken ∧ session.said = expected.said
  rest : session.restBytes <+: expected.left
  complete : session.Complete → session.restBytes = expected.left

theorem Came.follows (came : session.Came expected) (rest : session.restBytes <+: expected.left)
    (complete : session.Complete → session.restBytes = expected.left) :
    session.Follows expected where
  taken := came.taken ▸ List.prefix_rfl
  said := came.said ▸ List.prefix_rfl
  came _ isOutcome :=
    ⟨Option.some.inj (isOutcome.symm.trans came.outcome), came.taken, came.said⟩
  rest
  complete

/-- A session whose rest is not taken. -/
theorem follows_of_untaken {result : Taking.Result UInt8 Message Value}
    (reads : session.Reads expected) (untaken : session.head.rest = none)
    (comes : result.after session.taken session.said = expected) : session.Follows expected where
  taken := ⟨result.taken, congrArg (·.taken) comes⟩
  said := ⟨result.said, congrArg (·.said) comes⟩
  came outcome isOutcome := by
    have came := reads.came (by rw [isOutcome]; rfl)
    exact ⟨Option.some.inj (isOutcome.symm.trans came.outcome), came.taken, came.said⟩
  rest := by simp [restBytes, untaken]
  complete := by
    rintro ⟨paused, chunks, isRest⟩
    simp [isRest] at untaken

theorem flatMap_forwarded (chunks : List Bytes) (ended : Bool) :
    (chunks.map .data ++ if ended = true then [.close] else [] : List (Forwarded Error)).flatMap
      (fun
        | .data chunk => chunk
        | _ => []) = chunks.flatten := by
  cases ended <;> simp [List.flatMap_map, List.flatMap_id']

theorem follows (clean : session.Clean) (reads : session.Reads expected) :
    session.Follows expected := by
  have holds := reads
  cases reads with
  | running program isRunning untaken idle comes => exact follows_of_untaken holds untaken comes
  | waiting next isWaiting untaken waits flows isOpen short comes =>
      exact follows_of_untaken holds untaken comes
  | answered next bytes isAnswered untaken idle comes =>
      exact follows_of_untaken holds untaken comes
  | refused next failure isRefused untaken idle comes =>
      exact follows_of_untaken holds untaken comes
  | failed failure isFailed untaken idle comes => exact follows_of_untaken holds untaken comes
  | unread isRest idle came left =>
      refine came.follows (by simp [restBytes, isRest]) ?_
      rintro ⟨paused, chunks, isRead⟩
      simp [isRead] at isRest
  | read paused chunks isRest empty flows came left =>
      have isBytes : session.restBytes = chunks.flatten := by
        rw [restBytes, isRest]
        exact flatMap_forwarded chunks session.head.ended
      refine came.follows ⟨bytesComing session.coming, isBytes ▸ left⟩ ?_
      rintro ⟨wasPaused, others, isRead⟩
      have closed : (.close : Forwarded Error) ∈ chunks.map .data ++
          if session.head.ended = true then [.close] else [] := by
        rw [isRead] at isRest
        have same : others.map .data ++ [(.close : Forwarded Error)] = _ :=
          congrArg Rest.forwarded (Option.some.inj isRest)
        have isClosed : (.close : Forwarded Error) ∈ others.map .data ++ [.close] := by simp
        rw [same] at isClosed
        exact isClosed
      cases isEnded : session.head.ended with
      | true => simpa [isBytes, clean.coming_nil isEnded] using left
      | false => simp [isEnded] at closed

/-! ### No session is stuck, and none goes on for ever -/

/-- Whoever listens to the rest has paused it. -/
def Held (session : Session Error Message Value) : Prop :=
  ∃ forwarded, session.head.rest = some ⟨true, true, forwarded⟩

theorem exists_deliver (clean : session.Clean) (isOpen : session.head.ended = false)
    (flows : session.head.pauses = 0) : ∃ after, session.next .deliver = some after := by
  obtain ⟨-, ended⟩ | ⟨chunks, isComing, -⟩ := clean.delivers
  · simp [isOpen] at ended
  · cases isDelivery : session.coming with
    | nil => simp [isDelivery] at isComing
    | cons delivery coming =>
        simp only [next, deliver, isDelivery, if_pos flows]
        exact ⟨_, rfl⟩

theorem exists_rest (through : session.consumer.outcome.isSome = true)
    (untaken : session.head.rest = none) : ∃ after, session.next .rest = some after := by
  simp only [next, if_pos through, SocketHead.takeRest, untaken]
  exact ⟨_, rfl⟩

/-- Unless the rest is held or complete, a move is left. -/
theorem goesOn (clean : session.Clean) (reads : session.Reads expected) :
    session.Complete ∨ session.Held ∨
      ∃ move after, move ≠ .pause ∧ move ≠ .resume ∧ session.next move = some after := by
  cases reads with
  | running program isRunning untaken idle comes =>
      cases program with
      | give value =>
          obtain ⟨after, leads⟩ := exists_rest (by simp [isRunning, Consumer.outcome]) untaken
          exact .inr (.inr ⟨.rest, after, by decide, by decide, leads⟩)
      | say message next =>
          refine .inr (.inr ⟨.proceed, ?_⟩)
          simp only [Session.next, proceed, isRunning]
          exact ⟨_, by decide, by decide, rfl⟩
      | take count next =>
          refine .inr (.inr ⟨.proceed, ?_⟩)
          simp only [Session.next, proceed, isRunning,
            take_eq count clean.noError untaken idle.notWaiting]
          split
          next => exact ⟨_, by decide, by decide, rfl⟩
          next =>
              split
              next => exact ⟨_, by decide, by decide, rfl⟩
              next => exact ⟨_, by decide, by decide, rfl⟩
  | waiting next isWaiting untaken waits flows isOpen =>
      obtain ⟨after, leads⟩ := exists_deliver clean isOpen flows
      exact .inr (.inr ⟨.deliver, after, by decide, by decide, leads⟩)
  | answered next bytes isAnswered =>
      refine .inr (.inr ⟨.proceed, ?_⟩)
      simp only [Session.next, proceed, isAnswered]
      exact ⟨_, by decide, by decide, rfl⟩
  | refused next failure isRefused =>
      refine .inr (.inr ⟨.proceed, ?_⟩)
      simp only [Session.next, proceed, isRefused]
      exact ⟨_, by decide, by decide, rfl⟩
  | failed failure isFailed untaken =>
      obtain ⟨after, leads⟩ := exists_rest (by simp [isFailed, Consumer.outcome]) untaken
      exact .inr (.inr ⟨.rest, after, by decide, by decide, leads⟩)
  | unread isRest =>
      refine .inr (.inr ⟨.listen, ?_⟩)
      simp only [next, isRest]
      exact ⟨_, by decide, by decide, rfl⟩
  | read paused chunks isRest empty flows =>
      cases isEnded : session.head.ended with
      | true => exact .inl ⟨paused, chunks, by simpa [isEnded] using isRest⟩
      | false =>
          cases paused with
          | true => exact .inr (.inl ⟨_, isRest⟩)
          | false =>
              obtain ⟨after, leads⟩ := exists_deliver clean isEnded (flows isEnded)
              exact .inr (.inr ⟨.deliver, after, by decide, by decide, leads⟩)

/-- The turns that a program takes yet. -/
def turns (session : Session Error Message Value) : Nat :=
  match session.consumer with
  | .running program => 2 * program.steps session.ahead
  | .awaiting next .pending => 2 * (Taking.take session.head.wanted next).steps session.ahead - 1
  | .awaiting next (.piece bytes) => 2 * (next bytes).steps session.ahead + 1
  | .awaiting _ (.failed _) => 1
  | .failed _ => 0

/-- What each move makes less, but for a pause and its end. -/
def variant (session : Session Error Message Value) : Nat :=
  session.turns + session.coming.length +
    match session.head.rest with
    | none => 2
    | some ⟨false, _, _⟩ => 1
    | some ⟨true, _, _⟩ => 0

theorem turns_of_through (through : session.consumer.outcome.isSome = true) :
    session.turns = 0 := by
  unfold turns
  cases isConsumer : session.consumer with
  | running program =>
      cases program with
      | give value => rfl
      | say message next => simp [isConsumer, Consumer.outcome] at through
      | take count next => simp [isConsumer, Consumer.outcome] at through
  | awaiting next future => simp [isConsumer, Consumer.outcome] at through
  | failed failure => rfl

theorem variant_proceed (clean : session.Clean) (reads : session.Reads expected)
    (leads : session.proceed = some after) : after.variant < session.variant := by
  cases reads with
  | running program isRunning untaken idle comes =>
      rw [proceed, isRunning] at leads
      cases program with
      | give value => cases leads
      | say message next =>
          obtain rfl := Option.some.inj leads
          simp only [variant, turns, isRunning, Taking.steps, ahead]
          omega
      | take count next =>
          obtain ⟨⟨head, future⟩, taking, rfl⟩ := Option.map_eq_some_iff.mp leads
          rw [take_eq count clean.noError untaken idle.notWaiting] at taking
          have positive := @Taking.steps_take_pos _ _ _ count next session.ahead
          split at taking
          next enough =>
              obtain ⟨rfl, rfl⟩ := Prod.mk.inj (Option.some.inj taking)
              have isSteps : (Taking.take count next).steps session.ahead =
                  (next (session.head.buffer.take count)).steps
                    (session.head.buffer.drop count ++ bytesComing session.coming) + 1 := by
                rw [ahead_of_take session count,
                  Taking.steps_take_append (List.length_take_of_le enough)]
              simp only [variant, turns, isRunning, isSteps]
              simp only [ahead]
              omega
          next short =>
              split at taking
              next =>
                  obtain ⟨rfl, rfl⟩ := Prod.mk.inj (Option.some.inj taking)
                  simp only [variant, turns, isRunning]
                  omega
              next =>
                  obtain ⟨rfl, rfl⟩ := Prod.mk.inj (Option.some.inj taking)
                  simp only [variant, turns, isRunning, ahead] at positive ⊢
                  omega
  | waiting next isWaiting => simp [proceed, isWaiting] at leads
  | answered next bytes isAnswered untaken idle comes =>
      rw [proceed, isAnswered] at leads
      obtain rfl := Option.some.inj leads
      simp only [variant, turns, isAnswered, ahead]
      omega
  | refused next failure isRefused untaken idle comes =>
      rw [proceed, isRefused] at leads
      obtain rfl := Option.some.inj leads
      simp only [variant, turns, isRefused]
      omega
  | failed failure isFailed => simp [proceed, isFailed] at leads
  | unread isRest idle came left => simp [proceed_of_through came.through] at leads
  | read paused chunks isRest empty flows came left =>
      simp [proceed_of_through came.through] at leads

theorem variant_deliver (clean : session.Clean) (reads : session.Reads expected)
    (leads : session.deliver = some after) : after.variant < session.variant := by
  cases reads with
  | running program isRunning untaken idle comes => simp [idle.deliver_eq clean] at leads
  | waiting next isWaiting untaken waits flows isOpen short comes =>
      have positive := @Taking.steps_take_pos _ _ _ session.head.wanted next session.ahead
      rcases deliver_waiting clean isWaiting untaken waits isOpen leads with
        ⟨isComing, rfl⟩ | ⟨chunk, chunks, isComing, ⟨stillShort, rfl⟩ | ⟨enough, rfl⟩⟩
      · simp only [variant, turns, isWaiting, isComing, List.length_singleton, List.length_nil]
        omega
      · simp only [variant, turns, isWaiting, isComing, List.length_cons, ahead, bytesComing_data,
          List.append_assoc]
        omega
      · have isAhead := ahead_of_enough isComing
        rw [isAhead, Taking.steps_take_append (List.length_take_of_le enough)] at positive
        have isSteps : (Taking.take session.head.wanted next).steps session.ahead = _ :=
          (congrArg _ isAhead).trans (Taking.steps_take_append (List.length_take_of_le enough))
        simp only [variant, turns, isWaiting, isComing, List.length_cons, isSteps]
        simp only [ahead]
        omega
  | answered next bytes isAnswered untaken idle comes => simp [idle.deliver_eq clean] at leads
  | refused next failure isRefused untaken idle comes => simp [idle.deliver_eq clean] at leads
  | failed failure isFailed untaken idle comes => simp [idle.deliver_eq clean] at leads
  | unread isRest idle came left => simp [idle.deliver_eq clean] at leads
  | read paused chunks isRest empty flows came left =>
      obtain ⟨-, ⟨isComing, rfl⟩ | ⟨chunk, later, isComing, rfl⟩⟩ := deliver_read clean isRest leads
      · rw [variant, variant, turns_of_through came.through,
          turns_of_through (by exact came.through)]
        simp [isComing, isRest, Rest.add]
      · rw [variant, variant, turns_of_through came.through,
          turns_of_through (by exact came.through)]
        simp [isComing, isRest, Rest.add]

theorem variant_lt {move : Move} (clean : session.Clean) (reads : session.Reads expected)
    (notPause : move ≠ .pause) (notResume : move ≠ .resume)
    (leads : session.next move = some after) : after.variant < session.variant := by
  cases move with
  | deliver => exact variant_deliver clean reads leads
  | proceed => exact variant_proceed clean reads leads
  | rest =>
      rw [next] at leads
      split at leads
      next through =>
          obtain ⟨head, taking, rfl⟩ := Option.map_eq_some_iff.mp leads
          rw [variant, variant, turns_of_through through, turns_of_through (by exact through)]
          rw [SocketHead.takeRest] at taking
          split at taking
          next => cases taking
          next notTaken =>
              obtain rfl := Option.some.inj taking
              have untaken : session.head.rest = none := by simpa using notTaken
              simp [untaken]
      next => cases leads
  | listen =>
      rw [next] at leads
      split at leads
      next paused forwarded isRest =>
          obtain rfl := Option.some.inj leads
          obtain ⟨same, idle, came, left⟩ := reads.of_unread isRest
          rw [variant, variant, turns_of_through came.through,
            turns_of_through (by exact came.through)]
          have listened : ∃ events, (session.head.onListen ⟨true, paused, forwarded⟩).rest =
              some ⟨true, paused, events⟩ := by
            unfold SocketHead.onListen
            dsimp only
            split <;> exact ⟨_, rfl⟩
          obtain ⟨events, isListened⟩ := listened
          simp [isListened, isRest]
      next => cases leads
  | pause => exact absurd rfl notPause
  | resume => exact absurd rfl notResume

/-- A session that goes on with other moves than a pause and its end comes to an end, and where it
has none left, the rest is complete or held. -/
structure Advances (session : Session Error Message Value) : Prop where
  goesOn : session.Complete ∨ session.Held ∨
    ∃ move after, move ≠ .pause ∧ move ≠ .resume ∧ session.next move = some after
  variant : ∀ move after, move ≠ .pause → move ≠ .resume → session.next move = some after →
    after.variant < session.variant

/-- What holds of every session of a program with a socket. -/
theorem follows_advances {program : Taking UInt8 Message Value} {chunks : List Bytes}
    (reached : (system program chunks).Reachable session) :
    session.Follows (program.run chunks.flatten) ∧ session.Advances := by
  obtain ⟨clean, reads⟩ := Session.reads reached
  exact ⟨follows clean reads, goesOn clean reads,
    fun _ _ notPause notResume leads => variant_lt clean reads notPause notResume leads⟩

end Session

end ServerBox.Ssh.Socks5
