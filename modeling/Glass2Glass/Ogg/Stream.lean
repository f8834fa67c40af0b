import Glass2Glass.Ogg.Demuxer

/-!
# A bitstream of pages

`Laced` says which packets the segments of a page make. A page puts them together behind what was left over
(`OggLogicalStream.parsePage_laced`), and the packets of a codec with a fixed number of headers are all kept, headers
first (`OggLogicalStream.finalize_files`).
-/

namespace Glass2Glass.Ogg

open Words List

/-! ## Segments and packets -/

/-- Segments over a body, behind the bytes of a packet that was begun: the packets that end, and the bytes of the one
that does not. No packet grows beyond the cap. -/
inductive Laced : List UInt8 → List UInt8 → List UInt8 → List (List UInt8) → List UInt8 → Prop
  | nil {acc : List UInt8} : acc.length ≤ maxPacketBytes → Laced [] acc [] [] acc
  | full {segs acc piece body left : List UInt8} {packets : List (List UInt8)} : acc.length ≤ maxPacketBytes →
      piece.length = 255 → Laced segs (acc ++ piece) body packets left →
      Laced (255 :: segs) acc (piece ++ body) packets left
  | short {segs acc piece body left : List UInt8} {packets : List (List UInt8)} : acc.length ≤ maxPacketBytes →
      piece.length < 255 → Laced segs [] body packets left →
      Laced (UInt8.ofNat piece.length :: segs) acc (piece ++ body) ((acc ++ piece) :: packets) left

namespace Laced

variable {segs later acc body left : List UInt8} {packets : List (List UInt8)}

theorem acc_le (h : Laced segs acc body packets left) : acc.length ≤ maxPacketBytes := by
  cases h <;> assumption

theorem left_le (h : Laced segs acc body packets left) : left.length ≤ maxPacketBytes := by
  induction h with
  | nil hacc => exact hacc
  | full _ _ _ ih | short _ _ _ ih => exact ih

theorem length_body (h : Laced segs acc body packets left) : body.length = (segs.map UInt8.toNat).sum := by
  induction h with
  | nil _ => rfl
  | full _ hpiece _ ih =>
    rw [length_append, map_cons, sum_cons, ih, hpiece]
    rfl
  | short _ hpiece _ ih =>
    rw [length_append, map_cons, sum_cons, ih, UInt8.toNat_ofNat', Nat.mod_eq_of_lt (by omega)]

theorem split (h : Laced (segs ++ later) acc body packets left) :
    ∃ body₁ body₂ packets₁ packets₂ mid, body = body₁ ++ body₂ ∧ packets = packets₁ ++ packets₂ ∧
      Laced segs acc body₁ packets₁ mid ∧ Laced later mid body₂ packets₂ left := by
  induction segs generalizing acc body packets with
  | nil => exact ⟨[], body, [], packets, acc, rfl, rfl, .nil h.acc_le, h⟩
  | cons seg segs ih =>
    cases h with
    | full hacc hpiece hrest =>
      obtain ⟨body₁, body₂, packets₁, packets₂, mid, rfl, rfl, hfirst, hlast⟩ := ih hrest
      exact ⟨_, body₂, packets₁, packets₂, mid, (append_assoc _ _ _).symm, rfl, .full hacc hpiece hfirst, hlast⟩
    | short hacc hpiece hrest =>
      obtain ⟨body₁, body₂, packets₁, packets₂, mid, rfl, rfl, hfirst, hlast⟩ := ih hrest
      exact ⟨_, body₂, _, packets₂, mid, (append_assoc _ _ _).symm, rfl, .short hacc hpiece hfirst, hlast⟩

theorem left_eq_nil {seg : UInt8} (h : Laced (segs ++ [seg]) acc body packets left) (hseg : seg ≠ 255) : left = [] := by
  obtain ⟨_, _, _, _, mid, _, _, _, hlast⟩ := h.split
  cases hlast with
  | full _ _ _ => exact absurd rfl hseg
  | short _ _ hnil =>
    cases hnil
    rfl

theorem short_append {packet : List UInt8} (hacc : (acc ++ packet).length ≤ maxPacketBytes)
    (hrest : Laced later [] body packets left) :
    Laced (List.replicate (packet.length / 255) 255 ++ UInt8.ofNat (packet.length % 255) :: later) acc
      (packet ++ body) ((acc ++ packet) :: packets) left := by
  induction hn : packet.length / 255 generalizing acc packet with
  | zero =>
    have hlt : packet.length < 255 := by omega
    rw [Nat.mod_eq_of_lt hlt]
    exact .short (by rw [length_append] at hacc; omega) hlt hrest
  | succ n ih =>
    have hlong : 255 ≤ packet.length := by omega
    have hpacket : packet = packet.take 255 ++ packet.drop 255 := (take_append_drop _ _).symm
    have hdrop : (packet.drop 255).length = packet.length - 255 := length_drop
    have hmod : (packet.drop 255).length % 255 = packet.length % 255 := by rw [hdrop]; omega
    have hwhole : acc ++ packet.take 255 ++ packet.drop 255 = acc ++ packet := by
      rw [append_assoc, ← hpacket]
    have hmore := @ih (acc ++ packet.take 255) (packet.drop 255) (by rw [hwhole]; exact hacc) (by rw [hdrop]; omega)
    rw [hmod, hwhole] at hmore
    have htake : (packet.take 255).length = 255 := length_take_of_le hlong
    have hshort : acc.length ≤ maxPacketBytes := by rw [length_append] at hacc; omega
    have hfull := Laced.full hshort htake hmore
    rw [← append_assoc, ← hpacket] at hfull
    exact hfull

end Laced

namespace OggLogicalStream

variable {s : OggLogicalStream} {p : OggPage} {segs acc body left packet : List UInt8}
  {packets : List (List UInt8)}

/-! ## What a packet leaves alone -/

/-- Without the fields that only pages change. -/
def filed (s : OggLogicalStream) : OggLogicalStream :=
  { s with partialPacket := [], endGranulepos := none, firstData := none }

/-- As if the packets that were taken were still there. -/
def untaken (taken : List (List UInt8)) (s : OggLogicalStream) : OggLogicalStream :=
  { s with completed := taken ++ s.completed }

theorem finalize_filed (s : OggLogicalStream) (packet : List UInt8) :
    (s.finalize packet).filed = s.filed.finalize packet := by
  have hfile : ∀ s : OggLogicalStream, (s.file packet).filed = s.filed.file packet := by
    intro s
    unfold filed file complete codec
    split_ifs <;> rfl
  unfold finalize
  by_cases hempty : packet = [] ∧ s.codec ≠ some .theora
  · rw [if_pos hempty]
    exact (if_pos hempty).symm
  · rw [if_neg hempty, hfile]
    exact (if_neg hempty).symm

theorem finalize_untaken (taken : List (List UInt8)) (s : OggLogicalStream) (packet : List UInt8) :
    (s.untaken taken).finalize packet = (s.finalize packet).untaken taken := by
  have hcomplete : ∀ s : OggLogicalStream, (s.untaken taken).complete packet = (s.complete packet).untaken taken := by
    intro s
    unfold complete untaken
    rw [append_assoc]
  have hfile : ∀ s : OggLogicalStream, (s.untaken taken).file packet = (s.file packet).untaken taken := by
    intro s
    unfold file
    rw [hcomplete]
    unfold untaken codec
    split_ifs <;> rfl
  unfold finalize
  by_cases hempty : packet = [] ∧ s.codec ≠ some .theora
  · rw [if_pos hempty]
    exact if_pos hempty
  · rw [if_neg hempty, ← hfile]
    exact if_neg hempty

def place (s : OggLogicalStream) : Nat × Nat × Nat × Bool := (s.serial, s.chain, s.slot, s.resuming)

theorem finalize_place (s : OggLogicalStream) (packet : List UInt8) : (s.finalize packet).place = s.place := by
  unfold finalize identify file complete codec
  split_ifs <;> rfl

/-! ## A page -/

theorem foldl_next (h : Laced segs acc body packets left) (hresuming : s.resuming = false) :
    segs.foldl Lap.next ⟨s, acc, body, none⟩ = ⟨packets.foldl finalize s, left, [], none⟩ := by
  induction h generalizing s with
  | nil _ => rfl
  | full _ hpiece _ ih =>
    rw [foldl_cons, Lap.next]
    have hseg : (255 : UInt8).toNat = 255 := rfl
    rw [if_neg (by decide), hseg, take_left' hpiece, drop_left' hpiece]
    exact ih hresuming
  | @short segs acc piece body left packets _ hpiece _ ih =>
    have hseg : (UInt8.ofNat piece.length).toNat = piece.length := by
      exact Nat.mod_eq_of_lt (by omega)
    have hlt : UInt8.ofNat piece.length < 255 := by
      rw [UInt8.lt_iff_toNat_lt, hseg]
      exact hpiece
    have hnot : ¬ s.resuming = true := by rw [hresuming]; exact Bool.false_ne_true
    rw [foldl_cons, Lap.next]
    rw [hseg, if_pos hlt, if_neg hnot, take_left, drop_left, foldl_cons]
    exact ih ((congrArg (·.2.2.2) (finalize_place s (acc ++ piece))).trans hresuming)

/-- What a page does: its packets are finished, the last one is kept if it goes on, and the end is marked. -/
structure Turned (s s' : OggLogicalStream) (packets : List (List UInt8)) (left : List UInt8) : Prop where
  filed : s'.filed = packets.foldl finalize s.filed
  partialPacket : s'.partialPacket = left
  resuming : s'.resuming = false

theorem Turned.trans {s s' s'' : OggLogicalStream} {packets later : List (List UInt8)} {mid left : List UInt8}
    (h : Turned s s' packets mid) (h' : Turned s' s'' later left) : Turned s s'' (packets ++ later) left where
  filed := by rw [h'.filed, h.filed, foldl_append]
  partialPacket := h'.partialPacket
  resuming := h'.resuming

theorem foldl_filed (packets : List (List UInt8)) (s : OggLogicalStream) :
    (packets.foldl finalize s).filed = packets.foldl finalize s.filed := by
  induction packets generalizing s with
  | nil => rfl
  | cons packet packets ih => rw [foldl_cons, foldl_cons, ih, finalize_filed]

theorem foldl_place (packets : List (List UInt8)) (s : OggLogicalStream) :
    (packets.foldl finalize s).place = s.place := by
  induction packets generalizing s with
  | nil => rfl
  | cons packet packets ih => rw [foldl_cons, ih, finalize_place]

theorem foldl_end (packets : List (List UInt8)) (s : OggLogicalStream) :
    (packets.foldl finalize s).endGranulepos = s.endGranulepos := by
  induction packets generalizing s with
  | nil => rfl
  | cons packet packets ih =>
    rw [foldl_cons, ih]
    unfold finalize identify file complete codec
    split_ifs <;> rfl

theorem parsePage_laced (h : Laced p.segments s.partialPacket p.body packets left) (hresuming : s.resuming = false)
    (hcontinued : ¬ p.Flagged flagContinued → s.partialPacket = []) :
    Turned s (s.parsePage p) packets left ∧ (s.parsePage p).endGranulepos = (s.markEnd p).endGranulepos := by
  have hacc : (if p.Flagged flagContinued then s.partialPacket else []) = s.partialPacket := by
    split_ifs with hflag
    · rfl
    · exact (hcontinued hflag).symm
  have hmark : (s.markEnd p).filed = s.filed ∧ (s.markEnd p).resuming = s.resuming := by
    unfold markEnd
    split_ifs <;> exact ⟨rfl, rfl⟩
  generalize hs : ({ s.markEnd p with partialPacket := [] } : OggLogicalStream) = begun
  have hbegun : begun.filed = s.filed ∧ begun.resuming = false ∧ begun.endGranulepos = (s.markEnd p).endGranulepos := by
    rw [← hs]
    exact ⟨hmark.1, hmark.2.trans hresuming, rfl⟩
  obtain ⟨hfiled, hnot, hend⟩ := hbegun
  have hrest : (packets.foldl finalize begun).resuming = false :=
    (congrArg (·.2.2.2) (foldl_place packets begun)).trans hnot
  have hends := foldl_end packets begun
  have hfile := foldl_filed packets begun
  unfold parsePage
  dsimp only
  rw [hacc, hs, foldl_next h hnot]
  rw [if_neg (Nat.not_lt.2 h.left_le)]
  generalize packets.foldl finalize begun = done at hrest hends hfile
  have hland : ({ done with partialPacket := left } : OggLogicalStream).markLanding p none =
      { done with partialPacket := left } := by
    exact if_neg fun hboth => Bool.false_ne_true (hrest.symm.trans hboth.1)
  rw [hland]
  unfold markFirst
  rw [hfiled] at hfile
  split_ifs
  · exact ⟨⟨hfile, rfl, hrest⟩, hends.trans hend⟩
  · exact ⟨⟨hfile, rfl, hrest⟩, hends.trans hend⟩

/-! ## Headers and packets -/

/-- A codec that has a number of headers first, and then only packets to keep. -/
def Plain (c : OggCodec) : Prop := c = .opus ∨ c = .vorbis ∨ c = .other

instance (c : OggCodec) : Decidable (Plain c) := inferInstanceAs (Decidable (_ ∨ _ ∨ _))

def headers (s : OggLogicalStream) : List (List UInt8) :=
  s.headHeader.toList ++ s.commentHeader.toList ++ s.setupHeader.toList

def nonempty (packets : List (List UInt8)) : List (List UInt8) := packets.filter (· ≠ [])

/-- A bitstream with `n` headers that was given some packets. -/
structure Files (n : Nat) (s : OggLogicalStream) (done : List (List UInt8)) : Prop where
  info : s.info = done.head?.map detect
  seen : s.packetsSeen = done.length
  head : s.headHeader = (done.take n)[0]?
  comment : s.commentHeader = (done.take n)[1]?
  setup : s.setupHeader = (done.take n)[2]?
  completed : s.completed = done.drop n

/-- The packet that names the codec names one with `n` headers. -/
def Names (n : Nat) (packets : List (List UInt8)) : Prop :=
  ∀ first ∈ packets.head?, Plain (detect first).codec ∧ headerCount (some (detect first).codec) = n

variable {n : Nat} {done : List (List UInt8)}

theorem Names.of_append {later : List (List UInt8)} (h : Names n (done ++ later)) : Names n done := by
  intro first hfirst
  refine h first ?_
  cases done with
  | nil => cases hfirst
  | cons _ _ => exact hfirst

theorem file_plain {c : OggCodec} (hcodec : s.codec = some c) (hplain : Plain c) :
    s.file packet =
      if s.packetsSeen < headerCount (some c) then
        { s with
          headHeader := if s.packetsSeen = 0 then some packet else s.headHeader
          commentHeader := if s.packetsSeen = 1 then some packet else s.commentHeader
          setupHeader := if s.packetsSeen = 2 then some packet else s.setupHeader
          packetsSeen := s.packetsSeen + 1 }
      else s.complete packet := by
  have hflac : ¬ some c = some OggCodec.flac := by
    rcases hplain with rfl | rfl | rfl <;> decide
  have hvp8 : ¬ (some c = some OggCodec.vp8 ∧ vp8HeaderMagic <+: packet) := by
    rcases hplain with rfl | rfl | rfl <;> exact fun hboth => absurd hboth.1 (by decide)
  unfold file
  rw [hcodec, if_neg hflac, if_neg hvp8]

theorem getElem?_take_snoc {i : Nat} (hn : done.length < n) :
    ((done ++ [packet]).take n)[i]? = if done.length = i then some packet else (done.take n)[i]? := by
  have hsnoc : (done ++ [packet]).length ≤ n := by
    rw [length_append, length_singleton]
    omega
  rw [take_of_length_le hsnoc, take_of_length_le hn.le]
  split_ifs with hi
  · rw [← hi, List.getElem?_concat_length]
  · by_cases hlt : i < done.length
    · exact List.getElem?_append_left hlt
    · rw [List.getElem?_eq_none (by rw [length_append, length_singleton]; omega), List.getElem?_eq_none (by omega)]

/-- One more packet. -/
theorem Files.finalize (h : Files n s done) (hnames : Names n (done ++ [packet])) (hpacket : packet ≠ []) :
    Files n (s.finalize packet) (done ++ [packet]) := by
  have hinfo : (s.identify packet).info = (done ++ [packet]).head?.map detect := by
    unfold identify
    rw [h.info]
    cases done <;> rfl
  obtain ⟨first, hfirst⟩ : ∃ first, (done ++ [packet]).head? = some first := by
    cases done with
    | nil => exact ⟨packet, rfl⟩
    | cons first _ => exact ⟨first, rfl⟩
  obtain ⟨hplain, hcount⟩ := hnames first hfirst
  have hcodec : (s.identify packet).codec = some (detect first).codec := by
    unfold codec
    rw [hinfo, hfirst]
    rfl
  unfold OggLogicalStream.finalize
  rw [if_neg fun hboth => hpacket hboth.1, file_plain hcodec hplain, hcount]
  have hseen : (s.identify packet).packetsSeen = done.length := h.seen
  have hlength : done.length + 1 = (done ++ [packet]).length := by
    rw [length_append, length_singleton]
  by_cases hn : done.length < n
  · rw [hseen, if_pos hn]
    refine ⟨hinfo, hlength, ?_, ?_, ?_, ?_⟩
    · rw [getElem?_take_snoc hn, ← h.head]
      rfl
    · rw [getElem?_take_snoc hn, ← h.comment]
      rfl
    · rw [getElem?_take_snoc hn, ← h.setup]
      rfl
    · have hnone : (done ++ [packet]).drop n = [] := drop_of_length_le (by omega)
      rw [hnone, ← drop_of_length_le hn.le, ← h.completed]
      rfl
  · have htake : (done ++ [packet]).take n = done.take n := take_append_of_le_length (Nat.not_lt.1 hn)
    have hdrop : (done ++ [packet]).drop n = done.drop n ++ [packet] :=
      drop_append_of_le_length (Nat.not_lt.1 hn)
    rw [hseen, if_neg hn]
    refine ⟨hinfo, ?_, ?_, ?_, ?_, ?_⟩
    · rw [← hlength, ← hseen]
      rfl
    · rw [htake, ← h.head]
      rfl
    · rw [htake, ← h.comment]
      rfl
    · rw [htake, ← h.setup]
      rfl
    · rw [hdrop, ← h.completed]
      rfl

theorem Files.finalize_nil (h : Files n s done) (hnames : Names n done) : s.finalize [] = s := by
  have hcodec : s.codec ≠ some .theora := by
    intro htheora
    unfold codec at htheora
    rw [h.info] at htheora
    cases hfirst : done.head? with
    | none =>
      rw [hfirst] at htheora
      cases htheora
    | some first =>
      rw [hfirst] at htheora
      have hdetect : (detect first).codec = .theora := Option.some.inj htheora
      have hplain := (hnames first hfirst).1
      rw [hdetect] at hplain
      revert hplain
      decide
  exact if_pos ⟨rfl, hcodec⟩

theorem Files.run (packets : List (List UInt8)) (h : Files n s done) (hnames : Names n (done ++ nonempty packets)) :
    Files n (packets.foldl OggLogicalStream.finalize s) (done ++ nonempty packets) := by
  induction packets generalizing s done with
  | nil =>
    rw [nonempty, filter_nil, append_nil]
    exact h
  | cons packet packets ih =>
    by_cases hpacket : packet = []
    · have hsame : nonempty (packet :: packets) = nonempty packets := by
        subst hpacket
        rfl
      rw [hsame] at hnames ⊢
      rw [foldl_cons, hpacket, h.finalize_nil hnames.of_append]
      exact ih h hnames
    · have hcons : nonempty (packet :: packets) = packet :: nonempty packets :=
        filter_cons_of_pos (decide_eq_true hpacket)
      rw [hcons, append_cons] at hnames ⊢
      exact ih (h.finalize hnames.of_append hpacket) hnames

theorem Files.all (h : Files n s done) (hn : n ≤ 3) : s.headers ++ s.completed = done := by
  have hheaders : ∀ l : List (List UInt8), l.length ≤ 3 → l[0]?.toList ++ l[1]?.toList ++ l[2]?.toList = l := by
    intro l hl
    rcases l with _ | ⟨_, _ | ⟨_, _ | ⟨_, _ | ⟨_, rest⟩⟩⟩⟩
    · rfl
    · rfl
    · rfl
    · rfl
    · simp only [length_cons] at hl
      omega
  unfold headers
  rw [h.head, h.comment, h.setup, hheaders _ ((length_take_le n done).trans hn), h.completed, take_append_drop]

end OggLogicalStream

end Glass2Glass.Ogg
