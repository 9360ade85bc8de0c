import BbbXinu.Invariant.PacketBytes
import BbbXinu.Net.Exchange

/-!
# Which replies are accepted

A datagram on which a call returns has passed the test of its routine.  For
{lit}`rfscomm` this means that it answers the request of the call.  {lit}`rdscomm` also
lets smaller sequence numbers through.
-/

namespace BbbXinu
namespace Net
namespace Comm

variable {judge : UInt32 → Packet → Packet → Nat → Verdict} {fine : Packet → Nat → Answer → Prop}

/-- A condition on the datagrams that are received, each for the message and the number of
the request that waits. -/
def Fine (fine : Packet → Nat → Answer → Prop) (s : Comm) : CommLabel → Prop
  | .deliver k => ∀ e ∈ s.current, ∀ a ∈ s.answers[k]?, fine e.msg e.request a
  | _ => True

/-- A result that came from a datagram of the server has passed the test. -/
def Judged (judge : UInt32 → Packet → Packet → Nat → Verdict) (fine : Packet → Nat → Answer → Prop)
    (s : Comm) (r : Result) (a : Answer) : Prop :=
  a ∈ s.answers ∧ ∃ msg ∈ s.asked[r.request]?, fine msg r.request a ∧
    ∃ buf rlen, MSG_FIELDS ≤ rlen ∧ r.reply = fill buf a.bytes (min a.len rlen) ∧
      judge (seqOf msg) msg r.reply (min a.len rlen) = .done r.retval

/-- The requests are numbered, the call that is going on is the last of them, and every
result says where it came from. -/
structure Sound (judge : UInt32 → Packet → Packet → Nat → Verdict)
    (fine : Packet → Nat → Answer → Prop) (s : Comm) : Prop where
  seq : s.seq = UInt32.ofNat (s.asked.length + 1)
  stamped : ∀ i : Nat, ∀ msg ∈ s.asked[i]?, seqOf msg = UInt32.ofNat (i + 1)
  answers : ∀ a ∈ s.answers, s.Answers a
  current : ∀ e ∈ s.current, e.msg ∈ s.asked[e.request]? ∧ e.seq = seqOf e.msg ∧
    MSG_FIELDS ≤ e.rlen
  nothing : ∀ r ∈ s.results, r.got = none → r.retval = TIMEOUT ∨ r.retval = SYSERR
  judged : ∀ r ∈ s.results, ∀ a ∈ r.got, s.Judged judge fine r a

section Steps

variable {s s' : Comm} {e : Exchange} {a : Answer} {label : CommLabel}

theorem seqOf_stamp (s : Comm) (msg : Packet) : seqOf (s.stamp msg) = s.seq := by
  unfold seqOf stamp
  rw [get32_set32, htonl_htonl]

/-- A new request takes nothing away from what was said about the others. -/
theorem Sound.call {msg reply : Packet} {rlen : Nat} (h : s.Sound judge fine)
    (hrlen : MSG_FIELDS ≤ rlen) : (s.call msg reply rlen).Sound judge fine := by
  have hold : ∀ i : Nat, ∀ m ∈ s.asked[i]?, m ∈ (s.asked ++ [s.stamp msg])[i]? := by
    intro i m hm
    have hlt : i < s.asked.length := (List.getElem?_eq_some_iff.mp hm).1
    rwa [List.getElem?_append_left hlt]
  have hnew : s.stamp msg ∈ (s.asked ++ [s.stamp msg])[s.asked.length]? := by
    simp
  have hanswers : ∀ a, s.Answers a → (s.call msg reply rlen).Answers a := by
    rintro a ⟨m, hm, hseq, hlen⟩
    exact ⟨m, hold _ m hm, hseq, hlen⟩
  refine ⟨?_, ?_, fun a ha => hanswers a (h.answers a ha), ?_, h.nothing, ?_⟩
  · change s.seq + 1 = UInt32.ofNat ((s.asked ++ [s.stamp msg]).length + 1)
    rw [h.seq, List.length_append, List.length_singleton]
    exact (UInt32.ofNat_add _ 1).symm
  · intro i m hm
    change m ∈ (s.asked ++ [s.stamp msg])[i]? at hm
    by_cases hlt : i < s.asked.length
    · rw [List.getElem?_append_left hlt] at hm
      exact h.stamped i m hm
    · rw [List.getElem?_append_right (by omega)] at hm
      have h0 : i - s.asked.length = 0 := by
        by_contra hne
        rw [List.getElem?_eq_none (by simp; omega)] at hm
        cases hm
      rw [h0] at hm
      cases hm
      rw [seqOf_stamp, h.seq, show i = s.asked.length by omega]
  · intro e he
    cases he
    exact ⟨hnew, (seqOf_stamp s msg).symm, hrlen⟩
  · intro r hr a ha
    obtain ⟨hans, m, hm, hrest⟩ := h.judged r hr a ha
    exact ⟨hans, m, hold _ m hm, hrest⟩

/-- A call returns, with a datagram that has passed or without one. -/
theorem Sound.finish {retval : Int} {got : Option Answer} (h : s.Sound judge fine)
    (hnothing : got = none → retval = TIMEOUT ∨ retval = SYSERR)
    (hjudged : ∀ a ∈ got, s.Judged judge fine ⟨e.request, retval, e.reply, got⟩ a) :
    (s.finish e retval got).Sound judge fine := by
  refine ⟨h.seq, h.stamped, h.answers, nofun, fun r hr => ?_, fun r hr => ?_⟩
  · cases List.mem_append.mp hr with
    | inl hold => exact h.nothing r hold
    | inr hnew =>
        rw [List.mem_singleton.mp hnew]
        exact hnothing
  · cases List.mem_append.mp hr with
    | inl hold => exact h.judged r hold
    | inr hnew =>
        rw [List.mem_singleton.mp hnew]
        exact hjudged

theorem Sound.retry {xmit : Bool} (h : s.Sound judge fine)
    (he : e.msg ∈ s.asked[e.request]? ∧ e.seq = seqOf e.msg ∧ MSG_FIELDS ≤ e.rlen) :
    (s.retry e xmit).Sound judge fine := by
  unfold Comm.retry
  split
  · exact h.finish (fun _ => Or.inl rfl) nofun
  · refine ⟨h.seq, h.stamped, h.answers, fun e' he' => ?_, h.nothing, h.judged⟩
    cases he'
    exact he

theorem Sound.deliver (h : s.Sound judge fine) (he : e ∈ s.current) (ha : a ∈ s.answers)
    (hfine : fine e.msg e.request a) : (s.deliver judge e a).Sound judge fine := by
  obtain ⟨hmsg, hseq, hrlen⟩ := h.current e he
  unfold Comm.deliver
  dsimp only
  split
  · exact h.retry ⟨hmsg, hseq, hrlen⟩
  · rename_i v hv
    refine h.finish nofun fun a' ha' => ?_
    cases ha'
    rw [hseq] at hv
    exact ⟨ha, e.msg, hmsg, hfine, e.reply, e.rlen, hrlen, rfl, hv⟩

theorem Sound.step (h : s.Sound judge fine) (hfine : s.Fine fine label)
    (hs : s.step judge label = some s') : s'.Sound judge fine := by
  cases label with
  | call msg reply rlen =>
      obtain ⟨⟨-, hrlen⟩, hs⟩ := Option.ite_none_right_eq_some.mp hs
      cases hs
      exact h.call hrlen
  | send ok =>
      obtain ⟨e, he, hs⟩ := Option.bind_eq_some_iff.mp hs
      obtain ⟨-, hs⟩ := Option.ite_none_left_eq_some.mp hs
      cases ok with
      | true =>
          cases hs
          refine ⟨h.seq, h.stamped, h.answers, fun e' he' => ?_, h.nothing, h.judged⟩
          cases he'
          exact h.current e he
      | false =>
          cases hs
          exact h.finish (fun _ => Or.inr rfl) nofun
  | answer a =>
      obtain ⟨ha, hs⟩ := Option.ite_none_right_eq_some.mp hs
      cases hs
      refine ⟨h.seq, h.stamped, fun a' ha' => ?_, h.current, h.nothing, fun r hr a' ha' =>
        ⟨List.mem_append_left _ (h.judged r hr a' ha').1, (h.judged r hr a' ha').2⟩⟩
      cases List.mem_append.mp ha' with
      | inl hold => exact h.answers a' hold
      | inr hnew =>
          rw [List.mem_singleton.mp hnew]
          exact ha
  | timeout =>
      obtain ⟨e, he, hs⟩ := Option.bind_eq_some_iff.mp hs
      obtain ⟨-, hs⟩ := Option.ite_none_left_eq_some.mp hs
      cases hs
      exact h.retry (h.current e he)
  | error =>
      obtain ⟨e, he, hs⟩ := Option.bind_eq_some_iff.mp hs
      obtain ⟨-, hs⟩ := Option.ite_none_left_eq_some.mp hs
      cases hs
      exact h.finish (fun _ => Or.inr rfl) nofun
  | deliver k =>
      obtain ⟨e, he, hs⟩ := Option.bind_eq_some_iff.mp hs
      obtain ⟨-, hs⟩ := Option.ite_none_left_eq_some.mp hs
      obtain ⟨a, ha, rfl⟩ := Option.map_eq_some_iff.mp hs
      exact h.deliver he (List.mem_of_getElem? ha) (hfine e he a ha)

theorem reach_sound (h : Runs.Reach (step judge) (Fine fine) Init s) : s.Sound judge fine := by
  refine h.invariant ?_ fun s label s' _ hI hfine hs => hI.step hfine hs
  intro _ hinit
  rw [hinit]
  exact ⟨rfl, nofun, nofun, nofun, nofun, nofun⟩

end Steps

end Comm

/-!
## The test of a datagram
-/

section Judges

variable {buf d msg reply : Packet} {n o : Nat} {seq : UInt32} {v : Int}

theorem fill_of_lt {i : Nat} (h : i < n) : fill buf d n i = d i := if_pos h

theorem typeOf_fill (h : MSG_FIELDS ≤ n) : typeOf (fill buf d n) = typeOf d := by
  unfold MSG_FIELDS at h
  unfold typeOf
  rw [get16_congr (fill_of_lt (by unfold msg_type; omega))
    (fill_of_lt (by unfold msg_type; omega))]

theorem seqOf_fill (h : MSG_FIELDS ≤ n) : seqOf (fill buf d n) = seqOf d := by
  unfold MSG_FIELDS at h
  unfold seqOf
  rw [get32_congr fun i hi => fill_of_lt (by unfold msg_seq; omega)]

/-- A field that is equal to an unsigned value as a signed one is this value. -/
theorem eq_of_int16 {x w : UInt16} (h : int16 x = w.toNat) : x = w := by
  have hx := x.toNat_lt
  apply UInt16.toNat_inj.mp
  unfold int16 at h
  split at h
  · omega
  · omega

theorem rfsJudge_done (h : rfsJudge seq msg reply n = .done v) :
    seqOf reply = seq ∧ typeOf reply = typeOf msg ||| MSG_RESPONSE ∧ v = n := by
  unfold rfsJudge at h
  split at h
  · cases h
  · rename_i hseq
    split at h
    · cases h
    · rename_i htype
      cases h
      exact ⟨not_not.mp hseq, eq_of_int16 (not_not.mp htype), rfl⟩

theorem rdsJudge_done (h : rdsJudge seq msg reply n = .done v) :
    (seqOf reply < seq ∨ seqOf reply = seq) ∧
      typeOf reply = typeOf msg ||| MSG_RESPONSE := by
  unfold rdsJudge at h
  split at h
  · cases h
  · rename_i hseq
    dsimp only at h
    split at h
    · cases h
    · rename_i htype
      refine ⟨?_, eq_of_int16 (not_not.mp htype)⟩
      by_cases hlt : seqOf reply < seq
      · exact Or.inl hlt
      · exact Or.inr (not_not.mp fun hne => hseq ⟨hlt, hne⟩)

end Judges

/-!
## Remote files
-/

/-- {lit}`rfscomm` returns a length only for a datagram that answers the request of this
call and has its sequence number and the type of its response.  The datagram is in the
buffer. -/
theorem rfs_reply_answers_request {s : Comm}
    (h : Runs.Reach (Comm.step rfsJudge) (fun _ _ => True) Comm.Init s)
    (hcount : s.asked.length < 4294967296) {r : Result} (hr : r ∈ s.results)
    (hlength : 0 ≤ r.retval) :
    ∃ a ∈ r.got, a ∈ s.answers ∧ a.request = r.request ∧ ∃ msg ∈ s.asked[r.request]?,
      seqOf r.reply = seqOf msg ∧ typeOf r.reply = typeOf msg ||| MSG_RESPONSE ∧
        (MSG_FIELDS : Int) ≤ r.retval ∧ r.retval ≤ a.len ∧
        ∀ i : Nat, (i : Int) < r.retval → r.reply i = a.bytes i := by
  have hsound : s.Sound rfsJudge fun _ _ _ => True :=
    Comm.reach_sound (h.mono fun s label _ => by
      cases label with
      | deliver k => exact fun _ _ _ _ => trivial
      | call | send | answer | timeout | error => exact trivial)
  cases hgot : r.got with
  | none =>
      cases hsound.nothing r hr hgot with
      | inl hretval => rw [hretval] at hlength; exact absurd hlength (by decide)
      | inr hretval => rw [hretval] at hlength; exact absurd hlength (by decide)
  | some a =>
      obtain ⟨hmem, msg, hmsg, -, buf, rlen, hrlen, hreply, hjudge⟩ := hsound.judged r hr a hgot
      obtain ⟨m, hm, hans, hlen⟩ := hsound.answers a hmem
      obtain ⟨hseq, htype, hretval⟩ := rfsJudge_done hjudge
      have hn : MSG_FIELDS ≤ min a.len rlen := le_min hlen hrlen
      have hsame : seqOf m = seqOf msg := by
        rw [← hseq, hreply, seqOf_fill hn]
        exact congrArg htonl hans.symm
      have hrequest : a.request = r.request := by
        have h1 : a.request < s.asked.length := (List.getElem?_eq_some_iff.mp hm).1
        have h2 : r.request < s.asked.length := (List.getElem?_eq_some_iff.mp hmsg).1
        rw [hsound.stamped _ m hm, hsound.stamped _ msg hmsg] at hsame
        have hnat := congrArg UInt32.toNat hsame
        change (a.request + 1) % 4294967296 = (r.request + 1) % 4294967296 at hnat
        omega
      refine ⟨a, rfl, hmem, hrequest, msg, hmsg, hseq, htype, by omega, by omega, ?_⟩
      intro i hi
      rw [hreply]
      exact fill_of_lt (by omega)

/-!
## Remote disks
-/

/-- No reply to another request, of the type that is waited for, has a sequence number that
is smaller, or the same. -/
def rdsFine (msg : Packet) (request : Nat) (a : Answer) : Prop :=
  typeOf a.bytes = typeOf msg ||| MSG_RESPONSE → a.request ≠ request →
    seqOf msg < seqOf a.bytes

/-- In every run in which no reply to an earlier request, of the type that is waited for, is
received with a sequence number that is not larger, {lit}`rdscomm` returns only for a reply
to the request of this call, with its sequence number and the type of its response. -/
theorem rds_reply_answers_request {s : Comm}
    (h : Runs.Reach (Comm.step rdsJudge) (Comm.Fine rdsFine) Comm.Init s) {r : Result}
    (hr : r ∈ s.results) :
    (r.retval = OK → r.got ≠ none) ∧
      ∀ a ∈ r.got, a.request = r.request ∧ ∃ msg ∈ s.asked[r.request]?,
        seqOf r.reply = seqOf msg ∧ typeOf r.reply = typeOf msg ||| MSG_RESPONSE := by
  have hsound := Comm.reach_sound h
  refine ⟨fun hok hnone => ?_, fun a ha => ?_⟩
  · cases hsound.nothing r hr hnone with
    | inl hretval =>
        rw [hok] at hretval
        cases hretval
    | inr hretval =>
        rw [hok] at hretval
        cases hretval
  · obtain ⟨hmem, msg, hmsg, hfine, buf, rlen, hrlen, hreply, hjudge⟩ :=
      hsound.judged r hr a ha
    obtain ⟨m, hm, hans, hlen⟩ := hsound.answers a hmem
    obtain ⟨hseq, htype⟩ := rdsJudge_done hjudge
    have hn : MSG_FIELDS ≤ min a.len rlen := le_min hlen hrlen
    have hseq' : seqOf r.reply = seqOf a.bytes := by rw [hreply, seqOf_fill hn]
    have htype' : typeOf r.reply = typeOf a.bytes := by rw [hreply, typeOf_fill hn]
    have hrequest : a.request = r.request := by
      by_contra hne
      have hlt := hfine (htype'.symm.trans htype) hne
      rw [← hseq'] at hlt
      cases hseq with
      | inl hsmaller => exact absurd hlt (UInt32.lt_asymm hsmaller)
      | inr hsame =>
          rw [hsame] at hlt
          exact UInt32.lt_irrefl _ hlt
    refine ⟨hrequest, msg, hmsg, ?_, htype⟩
    rw [hrequest] at hm
    cases hm.symm.trans hmsg
    rw [hseq']
    exact congrArg htonl hans

/-!
## Runs
-/

/-- A message of a type, or its response, with a sequence number below 256. -/
def message (type response seq : UInt8) : Packet :=
  fun i => if i = 0 then response else if i = 1 then type else if i = 7 then seq else 0

instance (msg : Packet) (request : Nat) (a : Answer) : Decidable (rdsFine msg request a) :=
  inferInstanceAs (Decidable (_ = _ → _ ≠ _ → _ < _))

instance (s : Comm) (label : CommLabel) : Decidable (s.Fine rdsFine label) :=
  match label with
  | .deliver k => inferInstanceAs (Decidable (∀ e ∈ s.current, ∀ a ∈ s.answers[k]?, _))
  | .call _ _ _ | .send _ | .answer _ | .timeout | .error => inferInstanceAs (Decidable True)

/-- A request is made and answered, and the answer is received. -/
def roundTrip (type : UInt8) (request : Nat) (k : Nat) : List CommLabel :=
  [.call (message type 0 0) (fun _ => 0) 8, .send true,
    .answer ⟨request, message type 1 (UInt8.ofNat (request + 1)), 8⟩, .deliver k]

/-- Two requests are answered, and the first answer comes a second time. -/
theorem rfs_reply_answers_request_late : ∃ s : Comm, ∃ r ∈ s.results, r.retval = 8 ∧
    ∃ a ∈ r.got, a.request = r.request := by
  obtain ⟨s, hs, r, hr, hretval⟩ := Runs.exists_reach_of_follow (Comm.step rfsJudge)
    (fun _ _ => True) (show Comm.Init Comm.init from rfl)
    (roundTrip 1 0 0 ++ roundTrip 1 1 0 ++ [.send true, .deliver 1])
    (fun s => ∃ r ∈ s.results, r.request = 1 ∧ r.retval = 8 ∧ s.asked.length < 4294967296)
    (by decide +kernel)
  obtain ⟨a, ha, _, hrequest, _⟩ :=
    rfs_reply_answers_request hs hretval.2.2 hr (by rw [hretval.2.1]; decide)
  exact ⟨s, r, hr, hretval.2.1, a, ha, hrequest⟩

theorem rds_reply_answers_request_two : ∃ s : Comm, ∃ r ∈ s.results, r.request = 1 ∧
    r.got ≠ none := by
  obtain ⟨s, hs, r, hr, hretval⟩ := Runs.exists_reach_of_follow (Comm.step rdsJudge)
    (Comm.Fine rdsFine) (show Comm.Init Comm.init from rfl)
    (roundTrip 0x10 0 0 ++ roundTrip 0x10 1 1)
    (fun s => ∃ r ∈ s.results, r.request = 1 ∧ r.retval = OK) (by decide +kernel)
  exact ⟨s, r, hr, hretval.1, (rds_reply_answers_request hs hr).1 hretval.2⟩

/-- The answer to the first request comes again while the second one waits, and is taken. -/
theorem rds_reply_taken_twice :
    ∃ s, Runs.Reach (Comm.step rdsJudge) (fun _ _ => True) Comm.Init s ∧
      ∃ r ∈ s.results, r.request = 1 ∧ r.retval = OK ∧ r.got.map Answer.request = some 0 :=
  Runs.exists_reach_of_follow (Comm.step rdsJudge) (fun _ _ => True)
    (show Comm.Init Comm.init from rfl) (roundTrip 0x10 0 0 ++ roundTrip 0x10 1 0) _
    (by decide +kernel)

end Net
end BbbXinu
