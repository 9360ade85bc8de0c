import BbbXinu.Invariant.PacketBytes
import BbbXinu.Lib.Runs
import BbbXinu.Net.Tftp

/-!
# What is downloaded

Every block of the server has a number of its own, so the block that the client expects
is the one behind those that it has copied, whenever it arrives and however often.
-/

namespace BbbXinu
namespace Net

open Scatter (Filled contents capacity store)

/-!
## Messages
-/

section Messages

variable {bytes l : List UInt8} {v w : UInt16} {o : Nat} {file : List UInt8} {b : Nat}

theorem ofNat_toNat_word {n : Nat} (h : n < 256) : (UInt8.ofNat n).toNat = n :=
  Nat.mod_eq_of_lt h

/-- A field that was written is read. -/
theorem field16_eq (h : inBuffer bytes o = UInt8.ofNat (w.toNat / 256))
    (h1 : inBuffer bytes (o + 1) = UInt8.ofNat (w.toNat % 256)) : field16 bytes o = w := by
  have hw := w.toNat_lt
  apply UInt16.toNat_inj.mp
  unfold field16
  rw [htons_get16, h, h1, ofNat_toNat_word (by omega), ofNat_toNat_word (by omega)]
  omega

theorem field16_opcode : field16 (word w ++ l) tf_opcode = w := field16_eq rfl rfl

theorem field16_dblk : field16 (word v ++ word w ++ l) tf_dblk = w := field16_eq rfl rfl

theorem length_blockOf :
    (blockOf file b).length = min TFTP_MAXDATA (file.length - (b - 1) * TFTP_MAXDATA) := by
  unfold blockOf
  rw [List.length_take, List.length_drop]

theorem take_dataMsg : (dataMsg file b).take TFTP_MSG = dataMsg file b := by
  refine List.take_of_length_le ?_
  have hblock : (blockOf file b).length = _ := length_blockOf
  unfold dataMsg
  rw [List.length_append, hblock]
  exact Nat.add_le_add_left (Nat.min_le_left _ _) 4

/-- An acknowledgement asks for no file. -/
theorem rrqName_ackMsg : rrqName (ackMsg w) = none := by
  have hopcode : field16 (ackMsg w) tf_opcode = TFTP_ACK := field16_opcode
  refine if_neg fun h => ?_
  rw [hopcode] at h
  exact absurd h.1 (by decide)

theorem takeWhile_name (h : ∀ b ∈ bytes, b ≠ 0) :
    ((bytes ++ 0 :: l).takeWhile fun b => b ≠ 0) = bytes := by
  rw [List.takeWhile_append_of_pos (by simpa using h)]
  simp

/-- A read request is for the file that it names. -/
theorem rrqName_rrqMsg (h : ∀ b ∈ bytes, b ≠ 0) {name : List UInt8}
    (hname : rrqName (rrqMsg bytes) = some name) : name = bytes := by
  have hdrop : (rrqMsg bytes).drop 2 = bytes ++ 0 :: (octet ++ [0]) := by
    unfold rrqMsg
    rw [List.append_assoc, List.append_assoc, List.append_assoc]
    rfl
  obtain ⟨-, heq⟩ := Option.ite_none_right_eq_some.mp hname
  cases heq
  rw [hdrop]
  exact takeWhile_name h

end Messages

/-- No character of the name ends it. -/
theorem TftpArgs.name_ne_zero (a : TftpArgs) : ∀ b ∈ a.name, b ≠ 0 := by
  intro b hb hzero
  unfold TftpArgs.name at hb
  split at hb
  · cases hb
  · rename_i filename _
    obtain ⟨i, hi, heq⟩ := List.mem_map.mp hb
    have hlt := List.mem_range.mp hi
    have hfound : filename i = 0 := heq.trans hzero
    unfold strnlen at hlt
    cases hfind : (List.range (TFTP_MAXNAM + 1)).find? fun n => filename n = 0 with
    | none =>
        rw [hfind] at hlt
        have hnone := List.find?_eq_none.mp hfind i (List.mem_range.mpr hlt)
        exact hnone (decide_eq_true hfound)
    | some n =>
        rw [hfind] at hlt
        obtain ⟨-, k, hk, hget, hbefore⟩ := List.find?_eq_some_iff_getElem.mp hfind
        rw [List.getElem_range] at hget
        change i < n at hlt
        have hno := hbefore i (by omega)
        rw [List.getElem_range] at hno
        simp [hfound] at hno

/-!
## Copying a block
-/

/-- The buffers have a list, and the variables say where it ends. -/
structure Stored (a : TftpArgs) (g : Get) (bufs : Nat → Nat → UInt8) (l : List UInt8) : Prop where
  filled : Filled a.size bufs a.rcv_bufs.length g.curr_buf_ind g.curr_used l
  place : g.curr_buf = (g.curr_buf_ind, g.curr_used)
  filesiz : g.filesiz = l.length

section Copying

variable {a : TftpArgs} {g g' : Get} {bufs : Nat → Nat → UInt8} {l data : List UInt8} {b : Nat}
  {x : UInt8}

theorem TftpArgs.size_pos (h : a.Valid) (hb : b < a.rcv_bufs.length) : 0 < a.size b := by
  obtain ⟨-, -, -, hall⟩ := h
  have hsize := (hall _ (List.getElem_mem hb)).2
  unfold TftpArgs.size
  rw [List.getElem?_eq_getElem hb]
  exact Nat.pos_of_ne_zero fun hzero => hsize (UInt32.toNat_inj.mp hzero)

/-- There is room for one more byte. -/
theorem Stored.next (hvalid : a.Valid) (h : Stored a g bufs l) (hnext : nextBuf a g = some g') :
    Stored a g' bufs l ∧ g'.curr_used < a.size g'.curr_buf_ind ∧ g'.expected = g.expected := by
  unfold nextBuf at hnext
  split at hnext
  · rename_i hfull
    obtain ⟨hmore, hnext⟩ := Option.ite_none_left_eq_some.mp hnext
    cases hnext
    have hlt : g.curr_buf_ind + 1 < a.rcv_bufs.length := Nat.not_le.mp hmore
    exact ⟨⟨h.filled.next hfull hlt, rfl, h.filesiz⟩, TftpArgs.size_pos hvalid hlt, rfl⟩
  · rename_i hroom
    cases hnext
    exact ⟨h, Nat.not_le.mp hroom, rfl⟩

/-- There is no room. -/
theorem Stored.full (h : Stored a g bufs l) (hnext : nextBuf a g = none) :
    contents a.size bufs a.rcv_bufs.length = l := by
  unfold nextBuf at hnext
  split at hnext
  · rename_i hfull
    obtain ⟨hlast, -⟩ | ⟨-, hsome⟩ := ite_eq_iff.mp hnext
    · exact h.filled.full hfull hlast
    · cases hsome
  · cases hnext

theorem Stored.put (h : Stored a g bufs l) (hroom : g.curr_used < a.size g.curr_buf_ind) :
    Stored a g.advance (store bufs g.curr_buf x) (l ++ [x]) where
  filled := by
    rw [h.place]
    exact h.filled.put hroom
  place := by
    change (g.curr_buf.1, g.curr_buf.2 + 1) = _
    rw [h.place]
    rfl
  filesiz := by
    rw [List.length_append, ← h.filesiz]
    rfl

theorem copyBlock_expected : (copyBlock a data g bufs).1.expected = g.expected := by
  induction data generalizing g bufs with
  | nil => rfl
  | cons x rest ih =>
      unfold copyBlock
      cases hnext : nextBuf a g with
      | none => rfl
      | some g' =>
          refine ih.trans ?_
          unfold nextBuf at hnext
          split at hnext
          · obtain ⟨-, hnext⟩ := Option.ite_none_left_eq_some.mp hnext
            cases hnext
            rfl
          · cases hnext
            rfl

/-- The bytes of a block are stored one after the other, or the first ones fill the
buffers. -/
theorem copyBlock_stored (hvalid : a.Valid) (h : Stored a g bufs l) (data : List UInt8) :
    ((copyBlock a data g bufs).2.2 = true →
      Stored a (copyBlock a data g bufs).1 (copyBlock a data g bufs).2.1 (l ++ data)) ∧
    ((copyBlock a data g bufs).2.2 = false → ∃ j < data.length,
      contents a.size (copyBlock a data g bufs).2.1 a.rcv_bufs.length = l ++ data.take j ∧
        (copyBlock a data g bufs).1.filesiz = l.length + j) := by
  induction data generalizing g bufs l with
  | nil =>
      refine ⟨fun _ => ?_, fun hfalse => absurd hfalse nofun⟩
      rw [List.append_nil]
      exact h
  | cons x rest ih =>
      unfold copyBlock
      cases hnext : nextBuf a g with
      | none =>
          refine ⟨fun htrue => absurd htrue nofun, fun _ => ⟨0, Nat.zero_lt_succ _, ?_, h.filesiz⟩⟩
          rw [List.take_zero, List.append_nil]
          exact h.full hnext
      | some g' =>
          obtain ⟨hstored, hroom, -⟩ := h.next hvalid hnext
          obtain ⟨htrue, hfalse⟩ := ih (hstored.put hroom)
          refine ⟨fun hend => ?_, fun hend => ?_⟩
          · have hrest := htrue hend
            rw [List.append_assoc] at hrest
            exact hrest
          · obtain ⟨j, hj, hcontents, hfilesiz⟩ := hfalse hend
            refine ⟨j + 1, Nat.succ_lt_succ hj, ?_, ?_⟩
            · rw [List.append_assoc] at hcontents
              exact hcontents
            · rw [List.length_append, List.length_singleton] at hfilesiz
              dsimp only
              omega

end Copying

/-!
## Blocks
-/

section Blocks

variable {file l : List UInt8} {k j : Nat}

/-- The bytes of the next block stand behind those of the blocks before. -/
theorem append_take_blockOf (h : l <+: file) (hl : l.length = k * TFTP_MAXDATA)
    (hj : j ≤ TFTP_MAXDATA) :
    l ++ (blockOf file (k + 1)).take j = file.take (k * TFTP_MAXDATA + j) := by
  have htake : l = file.take (k * TFTP_MAXDATA) := by
    rw [← hl]
    exact List.prefix_iff_eq_take.mp h
  unfold blockOf
  rw [List.take_take, Nat.min_eq_left hj, Nat.add_sub_cancel, List.take_add, ← htake]

theorem append_blockOf (h : l <+: file) (hl : l.length = k * TFTP_MAXDATA) :
    l ++ blockOf file (k + 1) = file.take (k * TFTP_MAXDATA + TFTP_MAXDATA) := by
  have hall := append_take_blockOf h hl (Nat.le_refl TFTP_MAXDATA)
  rwa [List.take_of_length_le] at hall
  rw [length_blockOf]
  exact Nat.min_le_left _ _

end Blocks

namespace Tftp

/-- What the server sends: an error, or a block of the file. -/
def Right (files : List UInt8 → Option (List UInt8)) (a : TftpArgs) (bytes : List UInt8) : Prop :=
  (∃ text, bytes = word TFTP_ERROR ++ text) ∨
    ∃ file ∈ files a.name, ∃ b, 1 ≤ b ∧ b ≤ blocks file ∧ bytes = dataMsg file b

/-- The buffers have the beginning of the file, as much of it as there is or as they have
room for, and each block was copied once and in its turn. -/
def Downloaded (files : List UInt8 → Option (List UInt8)) (a : TftpArgs) (s : Tftp) (len : Nat) :
    Prop :=
  ∃ file ∈ files a.name, len = min file.length (capacity a.size a.rcv_bufs.length) ∧
    (contents a.size s.rcv_bufs a.rcv_bufs.length).take len = file.take len ∧
    s.copied = List.range' 1 s.copied.length

/-- A call that waits has copied the blocks before the one that it expects. -/
structure Got (files : List UInt8 → Option (List UInt8)) (a : TftpArgs) (s : Tftp) (g : Get) :
    Prop where
  valid : a.Valid
  running : s.result = none
  copied : s.copied = List.range' 1 s.copied.length
  expected : g.expected.toNat = s.copied.length + 1
  stored : ∃ l, Stored a g s.rcv_bufs l ∧ l.length = s.copied.length * TFTP_MAXDATA ∧
    ∀ file ∈ files a.name, l <+: file
  asks : ∀ name ∈ rrqName g.outmsg, name = a.name

/-- What is in the network, and what the sessions of the server are about. -/
structure Served (files : List UInt8 → Option (List UInt8)) (a : TftpArgs) (s : Tftp) : Prop where
  right : ∀ d ∈ s.toClient, Right files a d.bytes
  sessions : ∀ port, ∀ x ∈ s.sessions port,
    x.file ∈ files a.name ∧ 1 ≤ x.block ∧ x.block ≤ blocks x.file
  asked : ∀ d ∈ s.toServer, ∀ name ∈ rrqName d.bytes, name = a.name

structure Sound (files : List UInt8 → Option (List UInt8)) (a : TftpArgs) (s : Tftp) : Prop where
  served : s.Served files a
  got : ∀ g ∈ s.get, Got files a s g
  fresh : s.get = none → s.result = none → s.copied = []
  returned : ∀ len, s.result = some len → 0 ≤ len → Downloaded files a s len.toNat

section Steps

variable {files : List UInt8 → Option (List UInt8)} {a : TftpArgs} {s s' : Tftp} {g : Get}
  {port : UInt16} {x : Session} {d : Datagram} {file data l bytes : List UInt8} {status : Int}
  {m : Nat} {sent utime registered : Bool}

/-!
## The server
-/

theorem Served.reply (h : s.Served files a) (hright : Right files a bytes) :
    (s.reply port bytes).Served files a where
  right := by
    intro d hd
    change d ∈ s.toClient ++ [_] at hd
    cases List.mem_append.mp hd with
    | inl hold => exact h.right d hold
    | inr hnew =>
        rw [List.mem_singleton.mp hnew]
        exact hright
  sessions := h.sessions
  asked := h.asked

theorem Served.setSession (h : s.Served files a) {o : Option Session}
    (ho : ∀ x ∈ o, x.file ∈ files a.name ∧ 1 ≤ x.block ∧ x.block ≤ blocks x.file) :
    ({ s with sessions := upd s.sessions port o } : Tftp).Served files a where
  right := h.right
  sessions := by
    intro p x hx
    change x ∈ upd s.sessions port o p at hx
    by_cases hp : p = port
    · rw [hp, upd_self] at hx
      exact ho x hx
    · rw [upd_of_ne hp] at hx
      exact h.sessions p x hx
  asked := h.asked

theorem Served.serve (h : s.Served files a)
    (hx : x.file ∈ files a.name ∧ 1 ≤ x.block ∧ x.block ≤ blocks x.file) :
    (s.serve port x).Served files a := by
  have hreply : (s.reply port (dataMsg x.file x.block)).Served files a :=
    h.reply (.inr ⟨x.file, hx.1, x.block, hx.2.1, hx.2.2, rfl⟩)
  refine hreply.setSession fun y hy => ?_
  cases hy
  exact hx

/-- A full block is not the last one. -/
theorem Served.acked (h : s.Served files a) (hx : x ∈ s.sessions port) :
    (s.acked port x).Served files a := by
  obtain ⟨hfile, hpos, hle⟩ := h.sessions port x hx
  unfold Tftp.acked
  split
  · exact h.setSession fun x hx => absurd hx (Option.not_mem_none x)
  · rename_i hfull
    refine h.serve ⟨hfile, Nat.le_add_left 1 _, ?_⟩
    rw [length_blockOf] at hfull
    change x.block + 1 ≤ x.file.length / TFTP_MAXDATA + 1
    unfold TFTP_MAXDATA at hfull ⊢
    omega

/-- The server does not touch the client. -/
theorem Sound.server (h : s.Sound files a) (hserved : s'.Served files a) (hget : s'.get = s.get)
    (hresult : s'.result = s.result) (hbufs : s'.rcv_bufs = s.rcv_bufs)
    (hcopied : s'.copied = s.copied) : s'.Sound files a where
  served := hserved
  got := by
    intro g hg
    rw [hget] at hg
    obtain ⟨hvalid, hrunning, hcop, hexpected, hstored, hasks⟩ := h.got g hg
    rw [← hcopied] at hcop hexpected hstored
    rw [← hbufs] at hstored
    exact ⟨hvalid, hresult.trans hrunning, hcop, hexpected, hstored, hasks⟩
  fresh := by
    rw [hget, hresult, hcopied]
    exact h.fresh
  returned := by
    unfold Downloaded
    rw [hresult, hbufs, hcopied]
    exact h.returned

/-!
## The client
-/

theorem Served.sendto (h : s.Served files a) (hasks : ∀ name ∈ rrqName d.bytes, name = a.name) :
    (s.sendto d).Served files a where
  right := h.right
  sessions := h.sessions
  asked := by
    intro d' hd
    change d' ∈ s.toServer ++ [d] at hd
    cases List.mem_append.mp hd with
    | inl hold => exact h.asked d' hold
    | inr hnew =>
        rw [List.mem_singleton.mp hnew]
        exact hasks

/-- A call fails. -/
theorem Served.fail (h : s.Served files a) : (s.finish SYSERR).Sound files a where
  served := ⟨h.right, h.sessions, h.asked⟩
  got := nofun
  fresh := nofun
  returned := by
    intro len hlen hpos
    cases hlen
    exact absurd hpos (by decide)

/-- A call returns a length. -/
theorem Served.finish (h : s.Served files a) (hdown : Downloaded files a s m) :
    (s.finish m).Sound files a where
  served := ⟨h.right, h.sessions, h.asked⟩
  got := nofun
  fresh := nofun
  returned := by
    intro len hlen _
    cases hlen
    exact hdown

/-- A call sends its message and waits. -/
theorem Served.send1 (h : s.Served files a) (hgot : Got files a s g) :
    (s.tftpSend1 g sent).Sound files a := by
  unfold tftpSend1
  split
  · have hsent := h.sendto (d := { port := g.remport, bytes := g.outmsg }) hgot.asks
    refine ⟨⟨hsent.right, hsent.sessions, hsent.asked⟩, fun g' hg' => ?_, nofun, fun len hlen => ?_⟩
    · cases hg'
      exact ⟨hgot.valid, hgot.running, hgot.copied, hgot.expected, hgot.stored, hgot.asks⟩
    · exact absurd (hgot.running.symm.trans hlen) nofun
  · exact h.fail

theorem Sound.call (h : s.Sound files a) (hget : s.get = none) (hresult : s.result = none) :
    (s.tftpgetMb a utime registered sent).Sound files a := by
  unfold tftpgetMb
  split
  · exact h.served.fail
  · rename_i hvalid
    rw [not_not] at hvalid
    split
    · exact h.served.fail
    · split
      · exact h.served.fail
      · split
        · exact h.served.fail
        · have hcopied := h.fresh hget hresult
          have hpos : 0 < a.rcv_bufs.length := List.length_pos_of_ne_nil hvalid.2.2.1
          refine h.served.send1 ⟨hvalid, hresult, ?_, ?_, ⟨[], ?_, ?_, ?_⟩, ?_⟩
          · rw [hcopied]
            rfl
          · rw [hcopied]
            rfl
          · exact ⟨Filled.nil hpos, rfl, rfl⟩
          · rw [hcopied]
            rfl
          · exact fun file _ => List.nil_prefix
          · exact fun name hname => rrqName_rrqMsg a.name_ne_zero hname

theorem Sound.timeout (h : s.Sound files a) (hget : s.get = some g) :
    (s.timeout g sent).Sound files a := by
  have hgot := h.got g hget
  unfold Tftp.timeout
  split
  · exact h.served.send1
      ⟨hgot.valid, hgot.running, hgot.copied, hgot.expected,
        hgot.stored.imp fun l hl => ⟨⟨hl.1.filled, hl.1.place, hl.1.filesiz⟩, hl.2⟩, hgot.asks⟩
  · exact h.served.fail

/-- The end of what was stored is the end of the file or of the buffers. -/
theorem downloaded_of_initial (hfile : file ∈ files a.name)
    (hpre : file.take m <+: contents a.size s.rcv_bufs a.rcv_bufs.length)
    (hm : m = min file.length (capacity a.size a.rcv_bufs.length))
    (hcopied : s.copied = List.range' 1 s.copied.length) : Downloaded files a s m := by
  refine ⟨file, hfile, hm, ?_, hcopied⟩
  have htake := List.prefix_iff_eq_take.mp hpre
  rw [List.length_take, Nat.min_eq_left (by omega)] at htake
  exact htake.symm

/-- A block was copied to its end, and the state says so. -/
theorem Served.acknowledge {k : Nat} (hsmall : blocks file < 65535) (h : s.Served files a)
    (hvalid : a.Valid) (hrunning : s.result = none) (hfile : file ∈ files a.name)
    (hcopied : s.copied = List.range' 1 s.copied.length) (hk : s.copied.length = k + 1)
    (hexpected : g.expected.toNat = k + 1)
    (hstored : Stored a g s.rcv_bufs (file.take (k * TFTP_MAXDATA + TFTP_MAXDATA))) :
    (s.acknowledge g (blockOf file (k + 1)).length sent).Sound files a := by
  have hdata : (blockOf file (k + 1)).length = _ := length_blockOf
  rw [Nat.add_sub_cancel] at hdata
  unfold Tftp.acknowledge
  dsimp only
  split
  · rename_i hshort
    have hend : file.length ≤ k * TFTP_MAXDATA + TFTP_MAXDATA := by
      unfold TFTP_MAXDATA at hdata ⊢
      omega
    rw [List.take_of_length_le hend] at hstored
    split
    · refine Served.finish (Served.sendto h ?_) (downloaded_of_initial hfile ?_ ?_ hcopied)
      · rw [rrqName_ackMsg]
        nofun
      · rw [hstored.filesiz, List.take_length]
        exact hstored.filled.isPrefix
      · have hfits := hstored.filled.length_le
        have hsiz := hstored.filesiz
        omega
    · exact h.fail
  · rename_i hfull
    have hmore : (k + 1) * TFTP_MAXDATA ≤ file.length := by
      unfold TFTP_MAXDATA at hdata ⊢
      omega
    refine h.send1 ⟨hvalid, hrunning, hcopied, ?_, ⟨_, ⟨hstored.filled, hstored.place,
      hstored.filesiz⟩, ?_, fun file' hfile' => ?_⟩, ?_⟩
    · -- there are fewer blocks than numbers
      unfold blocks TFTP_MAXDATA at hsmall
      unfold TFTP_MAXDATA at hmore
      rw [UInt16.toNat_add, hexpected, hk]
      exact Nat.mod_eq_of_lt (by change k + 1 + 1 < 65536; omega)
    · rw [List.length_take, hk]
      unfold TFTP_MAXDATA at hmore ⊢
      omega
    · cases hfile.symm.trans hfile'
      exact List.take_prefix _ _
    · change ∀ name ∈ rrqName (ackMsg _), name = a.name
      rw [rrqName_ackMsg]
      nofun

/-- The block behind those that were copied is the next one in the buffers. -/
theorem Served.accept (hsmall : blocks file < 65535) (h : s.Served files a)
    (hgot : Got files a s g) (hfile : file ∈ files a.name) :
    (s.accept a g (blockOf file (s.copied.length + 1)) sent).Sound files a := by
  obtain ⟨l, hstored, hlen, hpre⟩ := hgot.stored
  have hlfile := hpre file hfile
  obtain ⟨htrue, hfalse⟩ :=
    copyBlock_stored hgot.valid hstored (blockOf file (s.copied.length + 1))
  have hcopied : s.copied ++ [g.expected.toNat] =
      List.range' 1 (s.copied ++ [g.expected.toNat]).length := by
    rw [List.length_append, List.length_singleton, List.range'_concat, ← hgot.copied, hgot.expected]
    congr 2
    omega
  unfold Tftp.accept
  dsimp only
  cases hend : (copyBlock a (blockOf file (s.copied.length + 1)) g s.rcv_bufs).2.2 with
  | false =>
      obtain ⟨j, hj, hcontents, hfilesiz⟩ := hfalse hend
      rw [length_blockOf, Nat.add_sub_cancel] at hj
      rw [append_take_blockOf hlfile hlen (by omega)] at hcontents
      have hcapacity := congrArg List.length hcontents
      rw [Scatter.length_contents, List.length_take] at hcapacity
      rw [if_neg (by decide)]
      refine Served.finish ⟨h.right, h.sessions, h.asked⟩
        (downloaded_of_initial hfile ?_ ?_ hcopied)
      · rw [hfilesiz, hlen]
        exact hcontents ▸ List.prefix_rfl
      · have hle := hlfile.length_le
        omega
  | true =>
      have hrest := htrue hend
      rw [append_blockOf hlfile hlen] at hrest
      rw [if_pos rfl]
      refine Served.acknowledge hsmall ⟨h.right, h.sessions, h.asked⟩ hgot.valid hgot.running hfile
        hcopied ?_ ((congrArg UInt16.toNat copyBlock_expected).trans hgot.expected) hrest
      exact List.length_append

/-- The datagram is an error, or another block, or the one that is expected. -/
theorem Sound.recv (hsmall : ∀ file ∈ files a.name, blocks file < 65535) (h : s.Sound files a)
    (hget : s.get = some g) (hd : d ∈ s.toClient) : (s.recv a g d sent).Sound files a := by
  have hgot : Got files a s { g with remport := d.port } := by
    obtain ⟨hvalid, hrunning, hcopied, hexpected, ⟨l, hl, hlen, hpre⟩, hasks⟩ := h.got g hget
    exact ⟨hvalid, hrunning, hcopied, hexpected,
      ⟨l, ⟨hl.filled, hl.place, hl.filesiz⟩, hlen, hpre⟩, hasks⟩
  have hwait : ({ s with get := some { g with remport := d.port } } : Tftp).Sound files a := by
    refine ⟨⟨h.served.right, h.served.sessions, h.served.asked⟩, fun g' hg' => ?_, nofun, h.returned⟩
    cases hg'
    exact ⟨hgot.valid, hgot.running, hgot.copied, hgot.expected, hgot.stored, hgot.asks⟩
  unfold Tftp.recv
  dsimp only
  split
  · exact hwait
  · split
    · exact h.served.fail
    · rename_i herror
      split
      · rename_i hmatch
        obtain ⟨text, htext⟩ | ⟨file, hfile, b, hpos, hb, hbytes⟩ := h.served.right d hd
        · refine absurd ?_ herror
          rw [htext]
          exact field16_opcode (l := text.take 514)
        · have hblocks := hsmall file hfile
          rw [hbytes, take_dataMsg] at hmatch ⊢
          have hnumber : (UInt16.ofNat b).toNat = b := Nat.mod_eq_of_lt (by
            change b < 65536
            omega)
          have hnext : b = s.copied.length + 1 := by
            have hdblk : field16 (dataMsg file b) tf_dblk = UInt16.ofNat b := field16_dblk
            rw [← hgot.expected, ← hnumber, ← hdblk]
            exact congrArg UInt16.toNat hmatch.2
          rw [hnext]
          exact h.served.accept hblocks hgot hfile
      · exact hwait

theorem Sound.step (hsmall : ∀ file ∈ files a.name, blocks file < 65535) {label : TftpLabel}
    (h : s.Sound files a) (hs : s.step files a label = some s') : s'.Sound files a := by
  cases label with
  | call utime registered sent =>
      obtain ⟨hidle, hs⟩ := Option.ite_none_left_eq_some.mp hs
      cases hs
      rw [not_or, Option.not_isSome_iff_eq_none, Option.not_isSome_iff_eq_none] at hidle
      exact h.call hidle.1 hidle.2
  | recv k sent =>
      obtain ⟨g, hget, hs⟩ := Option.bind_eq_some_iff.mp hs
      obtain ⟨d, hd, hs⟩ := Option.map_eq_some_iff.mp hs
      cases hs
      exact h.recv hsmall hget (List.mem_of_getElem? hd)
  | timeout sent =>
      obtain ⟨g, hget, hs⟩ := Option.map_eq_some_iff.mp hs
      cases hs
      exact h.timeout hget
  | error =>
      obtain ⟨g, _, hs⟩ := Option.map_eq_some_iff.mp hs
      cases hs
      exact h.served.fail
  | request k port =>
      obtain ⟨d, hd, hs⟩ := Option.bind_eq_some_iff.mp hs
      obtain ⟨_, hs⟩ := Option.ite_none_right_eq_some.mp hs
      obtain ⟨file, hfile, hs⟩ := Option.map_eq_some_iff.mp hs
      obtain ⟨name, hname, hfile⟩ := Option.bind_eq_some_iff.mp hfile
      cases hs
      rw [h.served.asked d (List.mem_of_getElem? hd) name hname] at hfile
      exact h.server (h.served.serve ⟨hfile, Nat.le_refl 1, Nat.le_add_left 1 _⟩) rfl rfl rfl rfl
  | ack k =>
      obtain ⟨d, _, hs⟩ := Option.bind_eq_some_iff.mp hs
      obtain ⟨x, hx, hs⟩ := Option.bind_eq_some_iff.mp hs
      obtain ⟨_, hs⟩ := Option.ite_none_right_eq_some.mp hs
      cases hs
      have hserved := h.served.acked hx
      unfold Tftp.acked at hserved ⊢
      split at hserved
      · rename_i hlast
        rw [if_pos hlast]
        exact h.server hserved rfl rfl rfl rfl
      · rename_i hlast
        rw [if_neg hlast]
        exact h.server hserved rfl rfl rfl rfl
  | resend port =>
      obtain ⟨x, hx, hs⟩ := Option.map_eq_some_iff.mp hs
      cases hs
      exact h.server (h.served.serve (h.served.sessions port x hx)) rfl rfl rfl rfl
  | refuse port text =>
      cases hs
      exact h.server (h.served.reply (.inl ⟨text, rfl⟩)) rfl rfl rfl rfl

end Steps

/-!
## Runs
-/

theorem Init.sound {files : List UInt8 → Option (List UInt8)} {a : TftpArgs} {s : Tftp}
    (h : Init s) : s.Sound files a := by
  obtain ⟨hget, hresult, hserver, hclient, hsessions, hcopied⟩ := h
  refine ⟨⟨?_, fun port x hx => ?_, ?_⟩, ?_, fun _ _ => hcopied, ?_⟩
  · rw [hclient]
    nofun
  · exact absurd ((hsessions port).symm.trans hx) nofun
  · rw [hserver]
    nofun
  · rw [hget]
    nofun
  · rw [hresult]
    nofun

/-- Whatever the network does, a length that {lit}`tftpget_mb` returns is that of the file, or
what the buffers have room for when that is less; so many bytes of the buffers are the
first ones of the file, and the blocks were copied in sequence, each of them once. -/
theorem tftpget_downloads (files : List UInt8 → Option (List UInt8)) (a : TftpArgs)
    (hsmall : ∀ file ∈ files a.name, blocks file < 65535) {s : Tftp}
    (h : Runs.Reach (step files a) (fun _ _ => True) Init s) {len : Int}
    (hresult : s.result = some len) (hlen : 0 ≤ len) :
    ∃ file, files a.name = some file ∧
      len.toNat = min file.length (capacity a.size a.rcv_bufs.length) ∧
      (contents a.size s.rcv_bufs a.rcv_bufs.length).take len.toNat = file.take len.toNat ∧
      s.copied = List.range' 1 s.copied.length := by
  have hsound : s.Sound files a :=
    h.invariant (fun _ => Init.sound) fun _ _ _ _ hI _ hs => hI.step hsmall hs
  exact hsound.returned len hresult hlen

/-- A server with one file, and two buffers for it. -/
def someFiles (name : List UInt8) : Option (List UInt8) :=
  if name = [102] then some (List.replicate 515 7) else none

def someArgs : TftpArgs where
  serverip := 1
  filename := some fun i => if i = 0 then 102 else 0
  rcv_bufs := [⟨true, 300⟩, ⟨true, 400⟩]

def idle : Tftp where
  get := none
  result := none
  rcv_bufs := fun _ _ => 0
  toServer := []
  toClient := []
  sessions := fun _ => none
  copied := []

/-- The request is delivered twice, and so is the first block, which comes from two
sessions; the second block is asked for again. -/
theorem tftpget_downloads_twice :
    ∃ s : Tftp, s.result = some 515 ∧
      (contents someArgs.size s.rcv_bufs 2).take 515 = List.replicate 515 7 := by
  obtain ⟨s, hs, hresult⟩ := Runs.exists_reach_of_follow (step someFiles someArgs) (fun _ _ => True)
    (show Init idle from ⟨rfl, rfl, rfl, rfl, fun _ => rfl, rfl⟩)
    [.call true true true, .request 0 1000, .request 0 1001, .recv 0 true, .recv 1 true,
      .timeout true, .ack 1, .resend 1001, .recv 3 true, .recv 2 true]
    (fun s => s.result = some 515) (by decide +kernel)
  have hname : someArgs.name = [102] := by decide +kernel
  have hfiles : someFiles someArgs.name = some (List.replicate 515 7) := by
    rw [hname]
    rfl
  obtain ⟨file, hfile, -, hcontents, -⟩ := tftpget_downloads someFiles someArgs
    (fun file hfile => by
      cases hfiles.symm.trans hfile
      decide +kernel) hs hresult (by decide)
  cases hfiles.symm.trans hfile
  exact ⟨s, hresult, hcontents.trans (List.take_of_length_le (by decide +kernel))⟩

end Tftp

end Net
end BbbXinu
