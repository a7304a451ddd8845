import TrackerDemo.Mosquitto.PacketRead

/-!
# Packets in a stream

A stream of frames has no marks between them: where a packet ends is known from
its length only, and a packet may arrive in any pieces. What the reader hands on
are the frames all the same.

Results:
* `packetRead_spec`, `readPackets_handled`: one call, and any number of calls, on
  a stream of frames.
* `packetRead_fragments`: the packets handed on are the frames that were sent, in
  order, however they arrive.
-/

namespace TrackerDemo.Mosquitto

open TrackerDemo.CString TrackerDemo.Base128

variable {σ : Type*}

section Calls

variable {handle : σ → ReadBuffer → Option MosqErr × σ}

/-! ## A stream of frames -/

/-- The bytes of a frame, whose length is any numeral of at most four bytes. -/
def FrameText (f : Frame) (text : Bytes) : Prop :=
  f.command ≠ 0 ∧ ∃ len, text = f.command :: len ++ f.body ∧ IsNumeral len ∧ len.length ≤ 4 ∧
    value len = f.body.length

/-- The bytes of some frames, one after the other. -/
inductive Texts : List Frame → Bytes → Prop
  | nil : Texts [] []
  | cons {f : Frame} {fs : List Frame} {text bs : Bytes} :
      FrameText f text → Texts fs bs → Texts (f :: fs) (text ++ bs)

/-- The frame as it is handed on. -/
def Frame.buffer (f : Frame) : ReadBuffer := ⟨f.command, f.body.length, f.body, 0⟩

/-- What `_mosquitto_packet_handle` makes of some frames. -/
def handled (handle : σ → ReadBuffer → Option MosqErr × σ) (c : σ) (fs : List Frame) : σ :=
  fs.foldl (fun c f => (handle c f.buffer).2) c

section

variable {f : Frame} {fs : List Frame} {text bs bytes : Bytes} {p : InPacket}

theorem FrameText.head_ne (h : FrameText f text) (rest : Bytes) :
    (text ++ rest).head? ≠ some 0 := by
  obtain ⟨hne, len, rfl, -⟩ := h
  intro hhead
  exact hne (Option.some.inj hhead)

theorem FrameText.not_tooLong (h : FrameText f text) (rest : Bytes) : ¬ TooLong (text ++ rest) := by
  rintro ⟨command, done, rest', he, hdone, hcont⟩
  obtain ⟨-, len, rfl, ⟨init, last, rfl, -, hlast⟩, hlen, -⟩ := h
  rw [List.length_append, List.length_singleton] at hlen
  simp only [List.cons_append, List.append_assoc, List.cons.injEq] at he
  have hget := congrArg (fun l : Bytes => l[init.length]?) he.2
  have hlt : init.length < done.length := by omega
  rw [List.getElem?_append_right le_rfl, Nat.sub_self, List.getElem?_append_left hlt,
    List.getElem?_eq_getElem hlt] at hget
  have hmem : last ∈ done := by
    rw [Option.some.inj hget]
    exact List.getElem_mem hlt
  exact hlast (hcont last hmem)

/-- A packet that is complete is the frame the stream starts with. -/
theorem FrameText.of_completes (h : FrameText f text) (hc : Completes (text ++ bs) p bytes) :
    p.complete = f.buffer ∧ bytes = bs := by
  have hhead := h.head_ne bs
  obtain ⟨-, len, rfl, hnum, -, hvalue⟩ := h
  obtain ⟨command, len', body, rfl, hnum', -, hbody, htotal⟩ := hc
  have heq := (htotal hhead).2
  simp only [List.cons_append, List.append_assoc, List.cons.injEq] at heq
  obtain ⟨rfl, hlen⟩ := heq
  obtain ⟨rfl, hafter⟩ := hnum'.eq_of_append hnum hlen
  obtain ⟨rfl, hrest⟩ := List.append_inj hafter (hbody.trans hvalue)
  refine ⟨?_, hrest⟩
  rw [InPacket.complete, Frame.buffer, ← hvalue]
  rfl

/-- As long as a frame is not complete, some of its bytes are to come. -/
theorem FrameText.ne_nil_of_receiving (h : FrameText f text)
    (hr : Receiving (text ++ bs) p bytes) : bytes ≠ [] := by
  have hhead := h.head_ne bs
  obtain ⟨-, len, rfl, hnum, -, hvalue⟩ := h
  rintro rfl
  rcases hr with ⟨-, htotal⟩ | ⟨h, -, hok, htotal⟩
  · exact absurd (htotal hhead) (by simp)
  · have heq := (htotal hhead).2
    cases h with
    | length command done =>
      simp only [Held.bytes, List.cons_append, List.append_assoc, List.cons.injEq,
        List.append_nil] at heq
      obtain ⟨init, last, rfl, -, hlast⟩ := hnum
      refine hlast (hok.1 last ?_)
      rw [heq.2]
      simp
    | payload command len' got =>
      simp only [Held.bytes, List.cons_append, List.append_assoc, List.cons.injEq,
        List.append_nil] at heq
      obtain ⟨rfl, hgot⟩ := hok.1.eq_of_append hnum heq.2
      have hlt : got.length < value len' := hok.2.2
      rw [hgot, List.length_append] at hlt
      omega

end

theorem texts_nil_iff {bs : Bytes} : Texts [] bs ↔ bs = [] :=
  ⟨fun | .nil => rfl, fun h => h ▸ .nil⟩

theorem texts_cons_iff {f : Frame} {fs : List Frame} {bs : Bytes} :
    Texts (f :: fs) bs ↔ ∃ text rest, bs = text ++ rest ∧ FrameText f text ∧ Texts fs rest :=
  ⟨fun | .cons hf hfs => ⟨_, _, rfl, hf, hfs⟩, fun ⟨_, _, he, hf, hfs⟩ => he ▸ .cons hf hfs⟩

/-! ## More bytes that follow -/

theorem head?_ne_of_append {bs more : Bytes} (h : (bs ++ more).head? ≠ some 0) :
    bs.head? ≠ some 0 := by
  cases bs with
  | nil => simp
  | cons b bs => exact h

theorem TooLong.append {bs : Bytes} (h : TooLong bs) (more : Bytes) : TooLong (bs ++ more) := by
  obtain ⟨command, done, rest, rfl, hlen, hdone⟩ := h
  exact ⟨command, done, rest ++ more, List.append_assoc _ _ _, hlen, hdone⟩

theorem Completes.append {total bytes : Bytes} {p : InPacket} (h : Completes total p bytes)
    (more : Bytes) : Completes (total ++ more) p (bytes ++ more) := by
  obtain ⟨command, len, body, hp, hnum, hlen, hbody, htotal⟩ := h
  refine ⟨command, len, body, hp, hnum, hlen, hbody, fun hhead => ?_⟩
  obtain ⟨hne, rfl⟩ := htotal (head?_ne_of_append hhead)
  exact ⟨hne, (List.append_assoc _ _ _).symm⟩

theorem Receiving.append {total bytes : Bytes} {p : InPacket} (h : Receiving total p bytes)
    (more : Bytes) : Receiving (total ++ more) p (bytes ++ more) := by
  rcases h with ⟨hp, htotal⟩ | ⟨h, hp, hok, htotal⟩
  · refine .inl ⟨hp, fun hhead => ?_⟩
    rw [htotal (head?_ne_of_append hhead)]
  · refine .inr ⟨h, hp, hok, fun hhead => ?_⟩
    obtain ⟨hne, rfl⟩ := htotal (head?_ne_of_append hhead)
    exact ⟨hne, (List.append_assoc _ _ _).symm⟩

/-- What is received and what the socket has are, with the bytes `more` that are to
    come, the frames `fs`, the first of which may be received in part. -/
def Awaits (more : Bytes) (fs : List Frame) (r : Reader σ) : Prop :=
  ∃ bs, Texts fs (bs ++ more) ∧ Receiving bs r.inPacket (streamBytes r.sock)

/-- With no frame to come the reader is at rest. -/
theorem Awaits.nil {more : Bytes} {r : Reader σ} (h : Awaits more [] r) :
    r.inPacket = .initial ∧ streamBytes r.sock = [] := by
  obtain ⟨bs, htexts, hr⟩ := h
  obtain ⟨rfl, -⟩ := List.append_eq_nil_iff.1 (texts_nil_iff.1 htexts)
  rcases hr with ⟨hp, htotal⟩ | ⟨h, -, -, htotal⟩
  · exact ⟨hp, htotal (by simp)⟩
  · have heq := (htotal (by simp)).2
    cases h <;> simp [Held.bytes] at heq

/-- With nothing to come behind the socket, the rest of a frame is in the socket. -/
theorem Awaits.ne_nil {f : Frame} {fs : List Frame} {r : Reader σ} (h : Awaits [] (f :: fs) r) :
    streamBytes r.sock ≠ [] := by
  obtain ⟨bs, htexts, hr⟩ := h
  obtain ⟨text, rest, heq, hf, -⟩ := texts_cons_iff.1 htexts
  rw [List.append_nil] at heq
  rw [heq] at hr
  exact hf.ne_nil_of_receiving hr

/-- What one call does on a stream of frames. -/
inductive CallSpec (handle : σ → ReadBuffer → Option MosqErr × σ) (more : Bytes) (fs : List Frame)
    (r : Reader σ) : Option MosqErr × Reader σ → Prop
  | waits (rc : Option MosqErr) (r' : Reader σ) (hclient : r'.client = r.client)
      (hawaits : Awaits more fs r')
      (hsteady : Steady r.sock → rc = none ∧ Steady r'.sock ∧ r'.sock.length ≤ r.sock.length - 1) :
      CallSpec handle more fs r (rc, r')
  | hands (f : Frame) (fs' : List Frame) (r' : Reader σ) (hfs : fs = f :: fs')
      (hclient : r'.client = (handle r.client f.buffer).2) (hawaits : Awaits more fs' r')
      (hinitial : r'.inPacket = .initial) (hlen : r'.sock.length ≤ r.sock.length)
      (hsteady : Steady r.sock → Steady r'.sock) :
      CallSpec handle more fs r ((handle r.client f.buffer).1, r')

/-- The step lemma. -/
theorem packetRead_spec {more : Bytes} {fs : List Frame} {r : Reader σ} (h : Awaits more fs r) :
    ∃ out, packetRead handle r = some out ∧ CallSpec handle more fs r out := by
  obtain ⟨bs, htexts, hr⟩ := h
  have hparts := readParts_meets hr
  unfold packetRead
  cases he : readParts r.sock r.inPacket with
  | overflow =>
    rw [he] at hparts
    exact hparts.elim
  | exit rc sock p =>
    rw [he] at hparts
    obtain ⟨hstays, hsteady⟩ := hparts
    have hrc : rc ≠ some .protocol := by
      rintro rfl
      unfold Stays at hstays
      rw [if_pos rfl] at hstays
      cases fs with
      | nil =>
        obtain ⟨rfl, -⟩ := List.append_eq_nil_iff.1 (texts_nil_iff.1 htexts)
        obtain ⟨c, done, rest, hnil, -⟩ := hstays (by simp)
        simp at hnil
      | cons f fs =>
        obtain ⟨text, rest, heq, hf, -⟩ := texts_cons_iff.1 htexts
        have hhead : (bs ++ more).head? ≠ some 0 := heq ▸ hf.head_ne rest
        have hlong := (hstays (head?_ne_of_append hhead)).append more
        rw [heq] at hlong
        exact hf.not_tooLong _ hlong
    unfold Stays at hstays
    rw [if_neg hrc] at hstays
    exact ⟨_, rfl, .waits rc _ rfl ⟨bs, htexts, hstays⟩ (hsteady hrc)⟩
  | next sock p =>
    rw [he] at hparts
    obtain ⟨hcompletes, hlen, hsteady⟩ := hparts
    cases fs with
    | nil =>
      obtain ⟨rfl, -⟩ := List.append_eq_nil_iff.1 (texts_nil_iff.1 htexts)
      obtain ⟨command, len, body, -, -, -, -, htotal⟩ := hcompletes
      exact absurd (htotal (by simp)).2 (by simp)
    | cons f fs' =>
      obtain ⟨text, rest, heq, hf, htexts'⟩ := texts_cons_iff.1 htexts
      have hcompletes' := hcompletes.append more
      rw [heq] at hcompletes'
      obtain ⟨hbuffer, hrest⟩ := hf.of_completes hcompletes'
      refine ⟨_, rfl, ?_⟩
      rw [hbuffer]
      rw [← hrest] at htexts'
      exact .hands f fs' _ rfl rfl ⟨streamBytes sock, htexts', .inl ⟨rfl, fun _ => rfl⟩⟩ rfl hlen
        hsteady

/-- The run lemma: the client has handled the first frames of the stream. -/
theorem readPackets_handled (n : ℕ) {more : Bytes} {fs : List Frame} {r : Reader σ}
    (h : Awaits more fs r) :
    ∃ rc r' done todo, readPackets handle n r = some (rc, r') ∧ fs = done ++ todo ∧
      r'.client = handled handle r.client done ∧ Awaits more todo r' := by
  induction n generalizing fs r with
  | zero => exact ⟨none, r, [], fs, rfl, rfl, rfl, h⟩
  | succ n ih =>
    obtain ⟨⟨rc, r'⟩, he, hspec⟩ := @packetRead_spec σ handle _ fs r h
    rw [readPackets, he]
    cases hspec with
    | waits _ _ hclient hawaits hsteady =>
      cases rc with
      | none =>
        obtain ⟨rc, r2, done, todo, he2, hfs, hc, ha⟩ := ih hawaits
        exact ⟨rc, r2, done, todo, he2, hfs, by rw [hc, hclient], ha⟩
      | some e => exact ⟨some e, r', [], fs, rfl, rfl, hclient, hawaits⟩
    | hands f fs' _ hfs hclient hawaits _ _ _ =>
      subst hfs
      cases hrc : (handle r.client f.buffer).1 with
      | none =>
        obtain ⟨rc, r2, done, todo, he2, rfl, hc, ha⟩ := ih hawaits
        refine ⟨rc, r2, f :: done, todo, he2, rfl, ?_, ha⟩
        rw [hc, hclient]
        rfl
      | some e => exact ⟨some e, r', [f], fs', rfl, rfl, hclient, hawaits⟩

/-- What `_mosquitto_packet_handle` makes of some frames up to the first one that it
    refuses. -/
def handledUntil (handle : σ → ReadBuffer → Option MosqErr × σ) :
    List Frame → σ → Option MosqErr × σ
  | [], c => (none, c)
  | f :: fs, c =>
    match handle c f.buffer with
    | (none, c) => handledUntil handle fs c
    | (some rc, c) => (some rc, c)

theorem handledUntil_eq_handled {fs : List Frame} {c : σ}
    (haccepts : ∀ c b, (handle c b).1 = none) :
    handledUntil handle fs c = (none, handled handle c fs) := by
  induction fs generalizing c with
  | nil => rfl
  | cons f fs ih =>
    obtain ⟨c', he⟩ : ∃ c', handle c f.buffer = (none, c') := ⟨_, Prod.ext (haccepts c _) rfl⟩
    rw [handledUntil, he]
    show handledUntil handle fs c' = (none, handled handle (handle c f.buffer).2 fs)
    rw [he, ih]

/-- On a steady stream, enough calls handle the frames up to the first one that is
    refused. -/
theorem readPackets_until (n : ℕ) {fs : List Frame} {r : Reader σ} (h : Awaits [] fs r)
    (hsteady : Steady r.sock) (hn : fs.length + r.sock.length ≤ n) :
    ∃ sock, readPackets handle n r =
        some ((handledUntil handle fs r.client).1,
          ⟨(handledUntil handle fs r.client).2, sock, .initial⟩) ∧
      ((handledUntil handle fs r.client).1 = none → sock = []) := by
  induction n generalizing fs r with
  | zero =>
    obtain rfl : fs = [] := List.eq_nil_of_length_eq_zero (by omega)
    have hsock : r.sock = [] := List.eq_nil_of_length_eq_zero (by omega)
    obtain ⟨hp, -⟩ := h.nil
    obtain ⟨client, sock, inPacket⟩ := r
    subst hsock hp
    exact ⟨[], rfl, fun _ => rfl⟩
  | succ n ih =>
    obtain ⟨⟨rc, r'⟩, he, hspec⟩ := @packetRead_spec σ handle _ fs r h
    rw [readPackets, he]
    cases hspec with
    | waits _ _ hclient hawaits hs =>
      obtain ⟨rfl, hsteady', hlen⟩ := hs hsteady
      rw [← hclient]
      refine ih hawaits hsteady' ?_
      cases hsock : r.sock with
      | cons a sock =>
        rw [hsock, List.length_cons] at hn hlen
        omega
      | nil =>
        -- all bytes have arrived, so no frame is left
        rw [hsock] at hlen
        have hsock' : r'.sock = [] := List.eq_nil_of_length_eq_zero (by simpa using hlen)
        cases fs with
        | nil => simp [hsock']
        | cons f fs => exact absurd (by rw [hsock']; rfl) hawaits.ne_nil
    | hands f fs' _ hfs hclient hawaits hinitial hlen hs =>
      subst hfs
      generalize hout : handle r.client f.buffer = out at hclient
      obtain ⟨rc, c⟩ := out
      rw [handledUntil, hout]
      cases rc with
      | some e =>
        -- the reader starts afresh behind a packet that is handed on
        obtain ⟨client', sock', inPacket'⟩ := r'
        obtain rfl : client' = c := hclient
        obtain rfl : inPacket' = .initial := hinitial
        exact ⟨sock', rfl, fun h => absurd h (by simp)⟩
      | none =>
        rw [List.length_cons] at hn
        have hall := ih hawaits (hs hsteady) (by omega)
        rw [hclient] at hall
        exact hall

end Calls

/-- A frame has a command, and its length fits into four bytes. -/
structure Frame.Valid (f : Frame) : Prop where
  command_ne : f.command ≠ 0
  length_lt : f.body.length < remainingLimit

instance (f : Frame) : Decidable f.Valid :=
  decidable_of_iff (f.command ≠ 0 ∧ f.body.length < remainingLimit)
    ⟨fun h => ⟨h.1, h.2⟩, fun h => ⟨h.command_ne, h.length_lt⟩⟩

theorem Frame.Valid.frameText {f : Frame} (h : f.Valid) : FrameText f f.text :=
  ⟨h.command_ne, encode f.body.length, rfl, encode_isNumeral _,
    (length_encode_le_iff (by omega) _).2 h.length_lt, value_encode _⟩

theorem texts_of_valid {fs : List Frame} (h : ∀ f ∈ fs, f.Valid) :
    Texts fs (fs.flatMap Frame.text) := by
  induction fs with
  | nil => exact .nil
  | cons f fs ih =>
    rw [List.flatMap_cons]
    exact .cons (h f (by simp)).frameText (ih fun g hg => h g (List.mem_cons_of_mem f hg))

/-- A socket on which some frames arrive, for a client at rest. -/
theorem awaits_of_valid {fs : List Frame} (h : ∀ f ∈ fs, f.Valid) (c : σ) {sock : Socket}
    (hbytes : streamBytes sock = fs.flatMap Frame.text) :
    Awaits [] fs (⟨c, sock, .initial⟩ : Reader σ) := by
  refine ⟨fs.flatMap Frame.text, ?_, .inl ⟨rfl, fun _ => hbytes⟩⟩
  rw [List.append_nil]
  exact texts_of_valid h

/-- Bytes that arrive one by one. -/
def byteByByte (bytes : Bytes) : Socket := bytes.map fun b => .data b []

theorem streamBytes_byteByByte (bytes : Bytes) : streamBytes (byteByByte bytes) = bytes := by
  induction bytes with
  | nil => rfl
  | cons b bytes ih => exact congrArg (b :: ·) ih

theorem steady_byteByByte (bytes : Bytes) : Steady (byteByByte bytes) := by
  intro a ha
  obtain ⟨b, -, rfl⟩ := List.mem_map.1 ha
  exact .inr ⟨b, [], rfl⟩

theorem handled_logPacket (log : List ReadBuffer) (fs : List Frame) :
    handled logPacket log fs = log ++ fs.map Frame.buffer := by
  induction fs generalizing log with
  | nil => simp [handled]
  | cons f fs ih =>
    show handled logPacket (log ++ [f.buffer]) fs = _
    rw [ih]
    simp

/-- **Any pieces.** When the bytes of some frames arrive, in whatever pieces, the
    packets handed on are the first ones of these frames, in order; when the
    stream stays open, enough calls hand on all of them. -/
theorem packetRead_fragments {fs : List Frame} {sock : Socket} (h : Texts fs (streamBytes sock))
    (n : ℕ) :
    ∃ rc r', readPackets logPacket n ⟨[], sock, .initial⟩ = some (rc, r') ∧
      r'.client <+: fs.map Frame.buffer ∧
      (Steady sock → fs.length + sock.length ≤ n →
        rc = none ∧ r' = ⟨fs.map Frame.buffer, [], .initial⟩) := by
  have hawaits : Awaits [] fs (⟨[], sock, .initial⟩ : Reader (List ReadBuffer)) := by
    refine ⟨streamBytes sock, ?_, .inl ⟨rfl, fun _ => rfl⟩⟩
    rw [List.append_nil]
    exact h
  obtain ⟨rc, r', done, todo, he, rfl, hc, -⟩ := @readPackets_handled _ logPacket n _ _ _ hawaits
  refine ⟨rc, r', he, ?_, fun hsteady hn => ?_⟩
  · rw [hc, handled_logPacket, List.nil_append, List.map_append]
    exact List.prefix_append _ _
  · obtain ⟨sock', hall, hsock⟩ := @readPackets_until _ logPacket n _ _ hawaits hsteady hn
    rw [handledUntil_eq_handled fun _ _ => rfl] at hall hsock
    rw [he, handled_logPacket, List.nil_append, hsock rfl] at hall
    exact Prod.mk.inj (Option.some.inj hall)

/-- An acknowledgement and an answer to a ping, the first of which arrives in
    three pieces. -/
theorem packetRead_fragments_sample : ∃ rc r',
    readPackets logPacket 7 ⟨[], [.data 0x40 [2], .wouldBlock, .data 0 [], .wouldBlock,
      .data 7 [0xD0, 0]], .initial⟩ = some (rc, r') ∧
      r'.client <+: [⟨0x40, 2, [0, 7], 0⟩, ⟨0xD0, 0, [], 0⟩] := by
  have hvalid : ∀ f ∈ [(⟨0x40, [0, 7]⟩ : Frame), ⟨0xD0, []⟩], f.Valid := by decide
  have htexts := texts_of_valid hvalid
  have hbytes : [(⟨0x40, [0, 7]⟩ : Frame), ⟨0xD0, []⟩].flatMap Frame.text =
      streamBytes [.data 0x40 [2], .wouldBlock, .data 0 [], .wouldBlock, .data 7 [0xD0, 0]] := by
    simp [Frame.text, encode_of_lt, streamBytes]
  rw [hbytes] at htexts
  obtain ⟨rc, r', he, hp, -⟩ := packetRead_fragments htexts 7
  exact ⟨rc, r', he, hp⟩

end TrackerDemo.Mosquitto
