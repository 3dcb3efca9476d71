import Flowfile.Http.Service
import Flowfile.Proofs.Outcome
import Flowfile.Proofs.Text.Decimal
import Flowfile.Proofs.Text.Integer

/-! The limit on request bodies.

A body is refused for what its header declares or for its length, and the pieces in which it arrives
have no part in that. They only decide how much of a body that is too long is read: up to the piece
that crosses the limit. -/

namespace Flowfile.Http

theorem declaredLength?_eq_some {header : Text} {length : Int} :
    declaredLength? header = some length ↔ Text.Spells header length := by
  constructor
  · intro declared
    rw [declaredLength?] at declared
    dsimp only at declared
    split at declared
    · rename_i digits grouped
      split at declared
      · rename_i few
        cases declared
        obtain ⟨front, back, whole, before, after⟩ := Text.exists_of_trimmed Text.isSpacing header
        change header = front ++ (header.trim ++ back) at whole
        obtain ⟨sign, body, signed, negative⟩ := Text.exists_of_unsigned header.trim
        obtain ⟨groups, nonempty, all, spelled, rfl⟩ := Text.groups_of_ungrouped? grouped
        rw [body, spelled] at whole
        rw [negative, whole]
        exact .of before after signed nonempty all few
      · cases declared
    · cases declared
  · intro spells
    cases spells with
    | @of front sign back groups before after signed nonempty digits few =>
        have trimmed : Text.trim (front ++ ((sign ++ Text.joinWith ['_'] groups) ++ back)) =
            sign ++ Text.joinWith ['_'] groups :=
          Text.trimmed_append before (Text.solid_signed digits signed) after
        rw [declaredLength?, trimmed, Text.unsigned_signed digits nonempty signed]
        simp only [Text.ungrouped?_groups digits nonempty, few, if_true]

def Declares (limit : Int) (request : Request) : Prop :=
  ∃ header length, request.header? "content-length" = some header ∧
    Text.Spells header length ∧ limit < length

theorem declaresTooMuch_iff {limit : Int} {request : Request} :
    declaresTooMuch limit request = true ↔ Declares limit request := by
  simp only [declaresTooMuch, Option.any_eq_true, Option.bind_eq_some_iff, decide_eq_true_eq,
    declaredLength?_eq_some, Declares]
  constructor
  · rintro ⟨length, ⟨header, given, spells⟩, beyond⟩
    exact ⟨header, length, given, spells, beyond⟩
  · rintro ⟨header, length, given, spells, beyond⟩
    exact ⟨length, ⟨header, given, spells⟩, beyond⟩

section

variable {limit : Int} {total : Nat} {chunks : List Bytes}

theorem readChunks_whole (taken : List Bytes)
    (few : ((total + chunks.flatten.length : Nat) : Int) ≤ limit) :
    readChunks limit total taken chunks = .whole (taken.reverse ++ chunks).flatten := by
  induction chunks generalizing total taken with
  | nil =>
      have within : ¬limit < total := by simpa using few
      rw [readChunks, if_neg within, List.append_nil]
  | cons chunk rest ih =>
      rw [List.flatten_cons, List.length_append, ← Nat.add_assoc] at few
      have within : ¬limit < ((total + chunk.length : Nat) : Int) := by omega
      rw [readChunks, if_neg (by simpa using within), ih _ few]
      simp

theorem readChunks_tooLarge (taken : List Bytes) (within : (total : Int) ≤ limit)
    (many : limit < ((total + chunks.flatten.length : Nat) : Int)) :
    ∃ read crossing unread, chunks = read ++ crossing :: unread ∧
      ((total + read.flatten.length : Nat) : Int) ≤ limit ∧
      limit < ((total + (read ++ [crossing]).flatten.length : Nat) : Int) ∧
      readChunks limit total taken chunks = .tooLarge unread := by
  induction chunks generalizing total taken with
  | nil =>
      simp at many
      omega
  | cons chunk rest ih =>
      rw [readChunks]
      by_cases crosses : limit < total + chunk.length
      · refine ⟨[], chunk, rest, rfl, by simpa using within, by simpa using crosses, ?_⟩
        rw [if_pos crosses]
      · rw [List.flatten_cons, List.length_append, ← Nat.add_assoc] at many
        obtain ⟨read, crossing, unread, rfl, few, crossed, stopped⟩ :=
          ih (chunk :: taken) (by omega) many
        refine ⟨chunk :: read, crossing, unread, rfl, ?_, ?_, by rw [if_neg crosses, stopped]⟩
        · simpa [Nat.add_assoc] using few
        · simpa [Nat.add_assoc] using crossed

end

section

variable {limit : Int} {request : Request}

theorem receive_declared (declares : Declares limit request) :
    receive limit request = .tooLarge request.chunks := by
  rw [receive, if_pos (declaresTooMuch_iff.mpr declares)]

theorem receive_undeclared (sends : hasBody request.method = true)
    (undeclared : ¬Declares limit request) :
    receive limit request = readChunks limit 0 [] request.chunks := by
  rw [receive, if_neg (fun declared => undeclared (declaresTooMuch_iff.mp declared)), if_pos sends]

theorem receive_whole (sends : hasBody request.method = true)
    (undeclared : ¬Declares limit request) (few : (request.chunks.flatten.length : Int) ≤ limit) :
    receive limit request = .whole request.chunks.flatten := by
  rw [receive_undeclared sends undeclared, readChunks_whole [] (by simpa using few)]
  rfl

theorem receive_crossed (nonneg : 0 ≤ limit) (sends : hasBody request.method = true)
    (undeclared : ¬Declares limit request) (many : limit < request.chunks.flatten.length) :
    ∃ read crossing unread, request.chunks = read ++ crossing :: unread ∧
      read.flatten.length ≤ limit ∧ limit < (read ++ [crossing]).flatten.length ∧
      receive limit request = .tooLarge unread := by
  rw [receive_undeclared sends undeclared]
  have beyond : limit < ((0 + request.chunks.flatten.length : Nat) : Int) := by simpa using many
  have stops := readChunks_tooLarge [] nonneg beyond
  simpa only [Nat.zero_add] using stops

end

section

variable {ε : Type} {limit : Int} {handler : Request → Except ε Reply} {request : Request}

def Exceeds (limit : Int) (request : Request) : Prop :=
  Declares limit request ∨ limit < request.chunks.flatten.length

theorem limited_of_exceeds (nonneg : 0 ≤ limit) (sends : hasBody request.method = true)
    (exceeds : Exceeds limit request) :
    limited limit handler request = .ok (tooLarge limit) := by
  by_cases declares : Declares limit request
  · rw [limited, receive_declared declares]
  · obtain ⟨read, crossing, unread, -, -, -, stopped⟩ :=
      receive_crossed nonneg sends declares (exceeds.resolve_left declares)
    rw [limited, stopped]

theorem limited_of_within (sends : hasBody request.method = true)
    (within : ¬ Exceeds limit request) :
    limited limit handler request = handler { request with chunks := [request.chunks.flatten] } := by
  rw [Exceeds, not_or, Int.not_lt] at within
  rw [limited, receive_whole sends within.1 within.2]

/-- Where the handler replies otherwise, the status tells whether a request is beyond the limit. -/
theorem limited_status_iff (nonneg : 0 ≤ limit) (sends : hasBody request.method = true)
    (other : ∀ reply, handler { request with chunks := [request.chunks.flatten] } = .ok reply →
      reply.status ≠ 413) :
    (∃ reply, limited limit handler request = .ok reply ∧ reply.status = 413) ↔
      Exceeds limit request := by
  constructor
  · rintro ⟨reply, answered, status⟩
    by_contra within
    rw [limited_of_within sends within] at answered
    exact other reply answered status
  · intro exceeds
    exact ⟨_, limited_of_exceeds nonneg sends exceeds, rfl⟩

theorem limited_congr (nonneg : 0 ≤ limit) (sends : hasBody request.method = true)
    {chunks : List Bytes} (same : chunks.flatten = request.chunks.flatten) :
    limited limit handler { request with chunks } = limited limit handler request := by
  have alike : Exceeds limit { request with chunks } ↔ Exceeds limit request := by
    rw [Exceeds, Exceeds, same]
    rfl
  by_cases exceeds : Exceeds limit request
  · rw [limited_of_exceeds nonneg sends exceeds]
    exact limited_of_exceeds nonneg sends (alike.mpr exceeds)
  · rw [limited_of_within sends exceeds, ← same]
    exact limited_of_within sends (alike.not.mpr exceeds)

/-- A body is refused exactly for a declared length or a length beyond the limit, and otherwise
handed on as it was sent, in whatever pieces and to whatever handler. What is read of one that is
refused ends with the piece that crosses the limit. -/
theorem limited_exact (limit : Int) (handler : Request → Except ε Reply) (request : Request)
    (sends : request.method ∈ [Text.of "POST", Text.of "PUT", Text.of "PATCH"])
    (nonneg : 0 ≤ limit) :
    let body := request.chunks.flatten
    let passed := handler { request with chunks := [body] }
    (Declares limit request ∨ limit < body.length →
        limited limit handler request = .ok (tooLarge limit) ∧ (tooLarge limit).status = 413) ∧
      (¬Declares limit request → body.length ≤ limit →
        receive limit request = .whole body ∧ limited limit handler request = passed) ∧
      ((∀ reply, passed = .ok reply → reply.status ≠ 413) →
        ((∃ reply, limited limit handler request = .ok reply ∧ reply.status = 413) ↔
          Declares limit request ∨ limit < body.length)) ∧
      (Declares limit request → receive limit request = .tooLarge request.chunks) ∧
      (¬Declares limit request → limit < body.length →
        ∃ read crossing unread, request.chunks = read ++ crossing :: unread ∧
          read.flatten.length ≤ limit ∧ limit < (read ++ [crossing]).flatten.length ∧
          receive limit request = .tooLarge unread) ∧
      ∀ chunks, chunks.flatten = body →
        limited limit handler { request with chunks } = limited limit handler request := by
  intro body passed
  have sends : hasBody request.method = true := List.contains_iff_mem.mpr sends
  refine ⟨fun exceeds => ⟨limited_of_exceeds nonneg sends exceeds, rfl⟩, fun undeclared few => ?_,
    limited_status_iff nonneg sends, receive_declared, receive_crossed nonneg sends,
    fun chunks same => limited_congr nonneg sends same⟩
  have within : ¬ Exceeds limit request := not_or.mpr ⟨undeclared, Int.not_lt.mpr few⟩
  exact ⟨receive_whole sends undeclared few, limited_of_within sends within⟩

/-- A header that is no integer does not count, and the third piece is not read. -/
theorem limited_exact_crossing :
    let handler (request : Request) : Except Failure Reply :=
      .ok ⟨200, .value (.int request.chunks.length), false⟩
    let request : Request :=
      ⟨Text.of "PUT", Text.of "/validate", [(Text.of "content-length", [0x31, 0x5f, 0x5f, 0x31])],
        [[1, 2], [3], [], [4]]⟩
    request.method ∈ [Text.of "POST", Text.of "PUT", Text.of "PATCH"] ∧
      2 < request.chunks.flatten.length ∧
      limited 2 handler request = .ok (tooLarge 2) ∧ (tooLarge 2).status = 413 := by
  intro handler request
  have sends : request.method ∈ [Text.of "POST", Text.of "PUT", Text.of "PATCH"] := by decide
  have many : 2 < request.chunks.flatten.length := by decide
  have exact' := limited_exact 2 handler request sends (by decide)
  exact ⟨sends, many, exact'.1 (.inr (Int.ofNat_lt.mpr many))⟩

end

namespace App

theorem status_of_invalid {complaints : List Complaint} {reply : Reply}
    (answered : Reply.invalid complaints = .ok reply) : reply.status = 422 := by
  rw [Reply.invalid] at answered
  split at answered
  · cases answered
    rfl
  · cases answered

theorem status_of_validateReply {document : Document} {unit : OffsetUnit} {reply : Reply}
    (answered : validateReply document unit = .ok reply) : reply.status = 200 := by
  rw [validateReply, bind_eq_ok] at answered
  obtain ⟨workflow, -, done⟩ := answered
  cases done
  rfl

theorem status_of_answer {app : App} {route : Route} {value : Option Value} {reply : Reply}
    (answered : app.answer route value = .ok reply) :
    reply.status = 200 ∨ reply.status = 422 := by
  simp only [answer, bind_eq_ok] at answered
  obtain ⟨schema, -, contexts, -, answered⟩ := answered
  cases route with
  | validate =>
      dsimp only at answered
      split at answered
      · exact .inr (status_of_invalid answered)
      · simp only [bind_eq_ok] at answered
        obtain ⟨document, -, answered⟩ := answered
        exact .inl (status_of_validateReply answered)
  | complete =>
      dsimp only at answered
      split at answered
      · exact .inr (status_of_invalid answered)
      · simp only [bind_eq_ok] at answered
        obtain ⟨document, -, suggestions, -, answered⟩ := answered
        cases answered
        exact .inl rfl
  | hover =>
      dsimp only at answered
      split at answered
      · exact .inr (status_of_invalid answered)
      · simp only [bind_eq_ok] at answered
        obtain ⟨document, -, text, -, answered⟩ := answered
        cases answered
        exact .inl rfl

/-- The reply to a body that has been read is not that it is too large. -/
theorem status_of_dispatch {app : App} {request : Request} {reply : Reply}
    (answered : app.dispatch request = .ok reply) : reply.status ≠ 413 := by
  rw [dispatch] at answered
  split at answered
  · split at answered
    · split at answered
      · rename_i fault _
        cases fault with
        | unreadable =>
            cases answered
            decide
        | complaint complaint =>
            rw [status_of_invalid answered]
            decide
      · rcases status_of_answer answered with status | status
        all_goals
          rw [status]
          decide
    · cases answered
      decide
  · split at answered
    · cases answered
      split <;> decide
    · split at answered
      all_goals
        cases answered
        decide

/-- The service refuses a request just for the size of its body. -/
theorem handle_status_iff {app : App} {request : Request}
    (nonneg : 0 ≤ app.settings.maxRequestBytes) (sends : hasBody request.method = true) :
    (∃ reply, app.handle request = .ok reply ∧ reply.status = 413) ↔
      Exceeds app.settings.maxRequestBytes request := by
  rw [← limited_status_iff nonneg sends fun reply => status_of_dispatch]
  constructor
  · rintro ⟨reply, answered, status⟩
    obtain ⟨inner, limited, rfl⟩ := (map_eq_ok_iff _ _ _).mp answered
    exact ⟨inner, limited, status⟩
  · rintro ⟨reply, limited, status⟩
    exact ⟨_, (map_eq_ok_iff _ _ _).mpr ⟨reply, limited, rfl⟩, status⟩

end App

end Flowfile.Http
