import Mathlib.Algebra.GroupWithZero.Nat
import Mathlib.Data.List.Forall2
import Mathlib.Data.List.Infix
import Rskynet.Lib.Incremental

/-!
# The framing of a cluster connection

On the wire an envelope is its Protobuf encoding behind a length of four bytes. The reader keeps
what it has received in a buffer and drains the whole frames after every chunk.

* `framing_round_trip` — **PROVED**: however the frames are cut into chunks, exactly the envelopes
  come back, and a drained buffer never holds a whole frame;
* `handed_eq_iff` — **PROVED**: on any stream, two ways of cutting it hand over the same envelopes
  exactly if no frame ends between their last chunk ends in front of the first error.

Protobuf is a parameter: an encoding whose decoder inverts it.
-/

namespace Rskynet.Cluster

open Incremental (Parser Next count_eq_iff)
open List

abbrev Bytes := List UInt8

/-- An encoding of messages as bytes that its decoder inverts. -/
structure Codec (μ : Type) where
  encode : μ → Bytes
  decode : Bytes → Option μ
  decode_encode : ∀ m, decode (encode m) = some m

def tooLong : String := "消息帧超过长度上限"

def malformed : String := "Protobuf envelope 不合法"

/-! ### The length in front -/

def toBeBytes (n : ℕ) : Bytes :=
  [UInt8.ofNat (n / 2 ^ 24), UInt8.ofNat (n / 2 ^ 16), UInt8.ofNat (n / 2 ^ 8), UInt8.ofNat n]

def fromBeBytes (a b c d : UInt8) : ℕ :=
  a.toNat * 2 ^ 24 + b.toNat * 2 ^ 16 + c.toNat * 2 ^ 8 + d.toNat

theorem fromBeBytes_toBeBytes {n : ℕ} (h : n < 2 ^ 32) :
    fromBeBytes (UInt8.ofNat (n / 2 ^ 24)) (UInt8.ofNat (n / 2 ^ 16)) (UInt8.ofNat (n / 2 ^ 8))
      (UInt8.ofNat n) = n := by
  simp only [fromBeBytes, UInt8.toNat_ofNat']
  omega

/-! ### Frames -/

variable {μ : Type} (codec : Codec μ)

def frame (envelope : μ) (max : ℕ) : Except String Bytes :=
  let body := codec.encode envelope
  if body.length > max ∨ body.length > 2 ^ 32 - 1 then .error tooLong
  else .ok (toBeBytes body.length ++ body)

/-- What the loop of `wire::drain` does at the front of the bytes it has not consumed. -/
def frontFrame (max : ℕ) : Bytes → Next UInt8 μ String
  | a :: b :: c :: d :: rest =>
    let len := fromBeBytes a b c d
    if len > max then .bad tooLong
    else if rest.length < len then .more
    else match codec.decode (rest.take len) with
      | none => .bad malformed
      | some envelope => .item envelope (rest.drop len)
  | _ => .more

/-- Four bytes of length and a rest: the only buffers the loop looks into. -/
theorem frontFrame_cases (max : ℕ) (buffer : Bytes) :
    (buffer.length < 4 ∧ frontFrame codec max buffer = .more) ∨
      ∃ a b c d rest, buffer = a :: b :: c :: d :: rest := by
  match buffer with
  | [] => exact .inl ⟨by decide, rfl⟩
  | [_] => exact .inl ⟨by simp, rfl⟩
  | [_, _] => exact .inl ⟨by simp, rfl⟩
  | [_, _, _] => exact .inl ⟨by simp, rfl⟩
  | a :: b :: c :: d :: rest => exact .inr ⟨a, b, c, d, rest, rfl⟩

/-- **A frame is taken off the front**: the length is in the limit, the body is there and decodes. -/
theorem frontFrame_eq_item {max : ℕ} {buffer after : Bytes} {envelope : μ}
    (h : frontFrame codec max buffer = .item envelope after) :
    ∃ a b c d rest, buffer = a :: b :: c :: d :: rest ∧ fromBeBytes a b c d ≤ max ∧
      fromBeBytes a b c d ≤ rest.length ∧
      codec.decode (rest.take (fromBeBytes a b c d)) = some envelope ∧
      after = rest.drop (fromBeBytes a b c d) := by
  obtain ⟨-, hmore⟩ | ⟨a, b, c, d, rest, rfl⟩ := frontFrame_cases codec max buffer
  · rw [hmore] at h
    cases h
  · simp only [frontFrame] at h
    split at h
    · cases h
    · split at h
      · cases h
      · split at h
        · cases h
        · rename_i hmax hlen _ found hdecode
          cases h
          exact ⟨a, b, c, d, rest, rfl, by omega, by omega, hdecode, rfl⟩

def parser (max : ℕ) : Parser UInt8 μ String where
  next := frontFrame codec max
  shorter := by
    intro buffer envelope after h
    obtain ⟨a, b, c, d, rest, rfl, -, -, -, rfl⟩ := frontFrame_eq_item codec h
    simp only [List.length_drop, List.length_cons]
    omega
  item_append := by
    intro buffer more envelope after h
    obtain ⟨a, b, c, d, rest, rfl, hmax, hlen, hdecode, rfl⟩ := frontFrame_eq_item codec h
    have hlong : ¬ (rest ++ more).length < fromBeBytes a b c d := by
      rw [List.length_append]
      omega
    simp only [List.cons_append, frontFrame, if_neg (Nat.not_lt.mpr hmax), if_neg hlong,
      List.take_append_of_le_length hlen, List.drop_append_of_le_length hlen, hdecode]
  bad_append := by
    intro buffer more e h
    obtain ⟨-, hmore⟩ | ⟨a, b, c, d, rest, rfl⟩ := frontFrame_cases codec max buffer
    · rw [hmore] at h
      cases h
    · simp only [frontFrame, List.cons_append] at h ⊢
      by_cases hmax : fromBeBytes a b c d > max
      · rw [if_pos hmax] at h ⊢
        exact h
      · rw [if_neg hmax] at h ⊢
        by_cases hlen : rest.length < fromBeBytes a b c d
        · rw [if_pos hlen] at h
          cases h
        · have hlong : ¬ (rest ++ more).length < fromBeBytes a b c d := by
            rw [List.length_append]
            omega
          rw [if_neg hlen] at h
          rw [if_neg hlong, List.take_append_of_le_length (Nat.not_lt.mp hlen)]
          cases hdecode : codec.decode (rest.take (fromBeBytes a b c d)) with
          | none => simpa only [hdecode] using h
          | some envelope => simp only [hdecode, reduceCtorEq] at h

/-- `wire::drain`: the envelopes of the whole frames and the buffer behind them; on an error the
envelopes are dropped and the buffer is as it was. -/
def drain (max : ℕ) (buffer : Bytes) : Except String (List μ) × Bytes :=
  match (parser codec max).drain buffer with
  | (envelopes, .ok rest) => (.ok envelopes, rest)
  | (_, .error e) => (.error e, buffer)

/-- What a connection does with its `Data` events: every chunk goes behind the buffer, which is
drained; the first error ends the connection. -/
def receive (max : ℕ) : Bytes → List Bytes → Except String (List μ × Bytes)
  | buffer, [] => .ok ([], buffer)
  | buffer, chunk :: chunks =>
    match drain codec max (buffer ++ chunk) with
    | (.error e, _) => .error e
    | (.ok envelopes, rest) =>
      (receive max rest chunks).map fun later => (envelopes ++ later.1, later.2)

/-! ### Round trip -/

theorem next_of_frame {max : ℕ} {envelope : μ} {bytes : Bytes}
    (h : frame codec envelope max = .ok bytes) (more : Bytes) :
    (parser codec max).next (bytes ++ more) = .item envelope more := by
  simp only [frame] at h
  split at h
  · cases h
  · rename_i hsize
    cases h
    have hmax : ¬ (codec.encode envelope).length > max := fun hlong => hsize (.inl hlong)
    have hword : (codec.encode envelope).length < 2 ^ 32 := by omega
    have hlong : ¬ (codec.encode envelope ++ more).length < (codec.encode envelope).length := by
      rw [length_append]
      omega
    simp only [parser, toBeBytes, cons_append, nil_append, frontFrame,
      fromBeBytes_toBeBytes hword, if_neg hmax, if_neg hlong, take_left', drop_left',
      codec.decode_encode]

theorem drain_frames {max : ℕ} {envelopes : List μ} {frames : List Bytes}
    (h : List.Forall₂ (fun envelope bytes => frame codec envelope max = .ok bytes) envelopes
      frames) :
    (parser codec max).drain frames.flatten = (envelopes, .ok []) := by
  induction h with
  | nil => exact Parser.drain_more rfl
  | cons hframe _ ih => rw [flatten_cons, Parser.drain_item (next_of_frame codec hframe _), ih]

theorem receive_of_feed {max : ℕ} (chunks : List Bytes) :
    ∀ {buffer rest : Bytes} {envelopes : List μ},
      (parser codec max).feed buffer chunks = (envelopes, .ok rest) →
      receive codec max buffer chunks = .ok (envelopes, rest) := by
  induction chunks with
  | nil =>
    intro buffer rest envelopes h
    cases h
    rfl
  | cons chunk chunks ih =>
    intro buffer rest envelopes h
    simp only [Parser.feed] at h
    cases hdrain : (parser codec max).drain (buffer ++ chunk) with
    | mk found stop =>
      cases stop with
      | error e =>
        rw [hdrain] at h
        cases h
      | ok left =>
        cases hfeed : (parser codec max).feed left chunks with
        | mk later stop =>
          simp only [hdrain, hfeed] at h
          cases h
          simp only [receive, drain, hdrain, ih hfeed]
          rfl

/-! ### What a drained buffer holds -/

/-- The buffer holds at most one frame, and not all of it: less than a length, or a length within
the limit and less than that many bytes. -/
def Incomplete (max : ℕ) : Bytes → Prop
  | a :: b :: c :: d :: rest => fromBeBytes a b c d ≤ max ∧ rest.length < fromBeBytes a b c d
  | _ => True

theorem incomplete_of_more {max : ℕ} {buffer : Bytes}
    (h : (parser codec max).next buffer = .more) :
    Incomplete max buffer ∧ buffer.length < 4 + max := by
  obtain ⟨hshort, -⟩ | ⟨a, b, c, d, rest, rfl⟩ := frontFrame_cases codec max buffer
  · refine ⟨?_, by omega⟩
    unfold Incomplete
    split
    · simp only [length_cons] at hshort
      omega
    · trivial
  · simp only [parser, frontFrame] at h
    split at h
    · cases h
    · rename_i hmax
      split at h
      · rename_i hlen
        refine ⟨⟨Nat.not_lt.mp hmax, hlen⟩, ?_⟩
        simp only [length_cons]
        omega
      · split at h <;> cases h

theorem incomplete_of_drain {max : ℕ} {buffer rest : Bytes} {envelopes : List μ}
    (h : drain codec max buffer = (.ok envelopes, rest)) :
    Incomplete max rest ∧ rest.length < 4 + max := by
  unfold drain at h
  split at h
  · rename_i found left hdrain
    cases h
    exact incomplete_of_more codec (Parser.next_of_drain hdrain)
  · cases h

/-- **Framing round trip**: for all envelopes that can be framed and every way of cutting their
frames into chunks, receiving the chunks gives the envelopes in order, no error and an empty buffer;
and a drain that succeeds, on any buffer, leaves less than one frame. -/
theorem framing_round_trip (max : ℕ) :
    (∀ (envelopes : List μ) (frames chunks : List Bytes),
      List.Forall₂ (fun envelope bytes => frame codec envelope max = .ok bytes) envelopes frames →
      chunks.flatten = frames.flatten → receive codec max [] chunks = .ok (envelopes, [])) ∧
    ∀ (buffer rest : Bytes) (envelopes : List μ),
      drain codec max buffer = (.ok envelopes, rest) →
      Incomplete max rest ∧ rest.length < 4 + max := by
  refine ⟨?_, fun buffer rest envelopes h => incomplete_of_drain codec h⟩
  intro envelopes frames chunks hframes hcut
  apply receive_of_feed
  rw [Parser.feed_eq_drain chunks [] rfl, nil_append, hcut]
  exact drain_frames codec hframes

/-- Bytes as they are. -/
def plain : Codec Bytes where
  encode := id
  decode := some
  decode_encode _ := rfl

/-- Two frames, the first of them empty, cut inside the second one's length and with an empty chunk
in between; and a drain that stops inside a frame. -/
theorem round_trip_of_three_chunks :
    receive plain 8 [] [[0, 0, 0, 0, 0, 0], [], [0, 2, 8, 2]] = .ok ([[], [8, 2]], []) ∧
      [0, 0, 0, 3, 8].length < 4 + 8 :=
  ⟨(framing_round_trip plain 8).1 [[], [8, 2]] [[0, 0, 0, 0], [0, 0, 0, 2, 8, 2]] _
      (.cons rfl (.cons rfl .nil)) rfl,
    ((framing_round_trip plain 8).2 [0, 0, 0, 2, 8, 2, 0, 0, 0, 3, 8] [0, 0, 0, 3, 8] [[8, 2]]
      rfl).2⟩

/-! ### Streams with an error -/

/-- The envelopes that the `Data` events of a connection hand to `on_envelope` before the first
error. -/
def handed (max : ℕ) : Bytes → List Bytes → List μ
  | _, [] => []
  | buffer, chunk :: chunks =>
    match drain codec max (buffer ++ chunk) with
    | (.error _, _) => []
    | (.ok envelopes, rest) => envelopes ++ handed max rest chunks

/-- The envelopes of the whole frames that the chunk with the first error completes in front of it:
`drain` returns the error in their place. -/
def dropped (max : ℕ) : Bytes → List Bytes → List μ
  | _, [] => []
  | buffer, chunk :: chunks =>
    match (parser codec max).drain (buffer ++ chunk) with
    | (envelopes, .error _) => envelopes
    | (_, .ok rest) => dropped max rest chunks

theorem handed_append_dropped (max : ℕ) (chunks : List Bytes) :
    ∀ buffer, handed codec max buffer chunks ++ dropped codec max buffer chunks =
      ((parser codec max).feed buffer chunks).1 := by
  induction chunks with
  | nil => exact fun _ => rfl
  | cons chunk chunks ih =>
    intro buffer
    simp only [handed, dropped, drain, Parser.feed]
    cases (parser codec max).drain (buffer ++ chunk) with
    | mk envelopes stop =>
      cases stop with
      | error e => rfl
      | ok rest =>
        simp only [append_assoc]
        rw [ih rest]

/-- The number of whole frames in the first `n` bytes of a stream and in front of its first error. -/
def wholeFrames (max : ℕ) (stream : Bytes) (n : ℕ) : ℕ :=
  ((parser codec max).drain (stream.take n)).1.length

/-- Byte `n` of the stream is the last one of a whole frame. -/
def EndsFrame (max : ℕ) (stream : Bytes) (n : ℕ) : Prop :=
  wholeFrames codec max stream n < wholeFrames codec max stream (n + 1)

instance (max : ℕ) (stream : Bytes) (n : ℕ) : Decidable (EndsFrame codec max stream n) :=
  inferInstanceAs (Decidable (_ < _))

/-- The bytes hold no error. -/
def clean (max : ℕ) (bytes : Bytes) : Bool := ((parser codec max).drain bytes).2.isOk

/-- Byte `n` comes in an earlier `Data` event than the first error. -/
def Ahead (max : ℕ) (chunks : List Bytes) (n : ℕ) : Prop :=
  ∃ first ∈ chunks.inits, n < first.flatten.length ∧ clean codec max first.flatten

instance (max : ℕ) (chunks : List Bytes) (n : ℕ) : Decidable (Ahead codec max chunks n) :=
  inferInstanceAs (Decidable (∃ first ∈ chunks.inits, _))

theorem monotone_wholeFrames (max : ℕ) (stream : Bytes) :
    Monotone (wholeFrames codec max stream) := by
  intro m n hmn
  obtain ⟨more, hmore⟩ := (take_isPrefix_take (l := stream)).mpr (.inl hmn)
  unfold wholeFrames
  rw [← hmore]
  exact (Parser.drain_prefix _ more).length_le

/-- What is handed over are the envelopes of the events in front of the one with the error. -/
theorem handed_eq_drain (max : ℕ) (chunks : List Bytes) :
    ∀ (seen : Bytes) {buffer : Bytes} {envelopes : List μ},
      (parser codec max).drain seen = (envelopes, .ok buffer) →
      ∃ good rest, chunks = good ++ rest ∧ clean codec max (seen ++ good.flatten) ∧
        envelopes ++ handed codec max buffer chunks =
          ((parser codec max).drain (seen ++ good.flatten)).1 ∧
        ∀ chunk ∈ rest.head?, clean codec max (seen ++ good.flatten ++ chunk) = false := by
  induction chunks with
  | nil =>
    intro seen buffer envelopes hseen
    refine ⟨[], [], rfl, ?_⟩
    simp [clean, handed, hseen, Except.isOk, Except.toBool]
  | cons chunk chunks ih =>
    intro seen buffer envelopes hseen
    have hnext := Parser.drain_append (P := parser codec max) seen chunk
    simp only [hseen] at hnext
    cases hdrain : (parser codec max).drain (buffer ++ chunk) with
    | mk found stop =>
      rw [hdrain] at hnext
      cases stop with
      | error e =>
        refine ⟨[], chunk :: chunks, rfl, ?_⟩
        simp [clean, handed, drain, hdrain, hnext, hseen, Except.isOk, Except.toBool]
      | ok left =>
        obtain ⟨good, rest, rfl, hgood⟩ := ih _ hnext
        refine ⟨chunk :: good, rest, rfl, ?_⟩
        simpa only [handed, drain, hdrain, flatten_cons, append_assoc] using hgood

theorem ahead_iff {max n : ℕ} {good rest : List Bytes}
    (hgood : clean codec max good.flatten)
    (hrest : ∀ chunk ∈ rest.head?, clean codec max (good.flatten ++ chunk) = false) :
    Ahead codec max (good ++ rest) n ↔ n < good.flatten.length := by
  constructor
  · rintro ⟨first, hfirst, hn, hclean⟩
    rcases prefix_or_prefix_of_prefix ((mem_inits ..).mp hfirst) (prefix_append good rest) with
      ⟨more, rfl⟩ | ⟨more, rfl⟩
    · rw [flatten_append, length_append]
      omega
    · cases more with
      | nil => rwa [append_nil] at hn
      | cons chunk more =>
        -- the event with the error would be among those in front of it
        obtain ⟨later, hlater⟩ := (prefix_append_right_inj good).mp ((mem_inits ..).mp hfirst)
        have hbad := hrest chunk (by rw [← hlater]; rfl)
        rw [flatten_append, flatten_cons, ← append_assoc] at hclean
        exact absurd (Parser.isOk_of_append hclean) (ne_true_of_eq_false hbad)
  · exact fun hn => ⟨good, (mem_inits ..).mpr (prefix_append ..), hn, hgood⟩

theorem handed_append_dropped_nil (max : ℕ) (chunks : List Bytes) :
    handed codec max [] chunks ++ dropped codec max [] chunks =
      ((parser codec max).drain chunks.flatten).1 := by
  rw [handed_append_dropped, Parser.feed_eq_drain chunks [] rfl, nil_append]

/-- The last chunk end in front of the error. -/
theorem exists_lastEnd (max : ℕ) (chunks : List Bytes) :
    ∃ e ≤ chunks.flatten.length, (∀ n, Ahead codec max chunks n ↔ n < e) ∧
      (handed codec max [] chunks).length = wholeFrames codec max chunks.flatten e := by
  obtain ⟨good, rest, rfl, hclean, hhanded, hrest⟩ :=
    handed_eq_drain codec max chunks [] (Parser.drain_more rfl)
  rw [nil_append] at hclean hhanded
  refine ⟨good.flatten.length, ?_, fun n => ahead_iff codec hclean hrest, ?_⟩
  · rw [flatten_append, length_append]
    omega
  · rw [hhanded, wholeFrames, flatten_append, take_left' rfl]
    rfl

theorem handed_of_ahead {max : ℕ} {chunks : List Bytes}
    (hahead : ∀ n < chunks.flatten.length, EndsFrame codec max chunks.flatten n →
      Ahead codec max chunks n) :
    handed codec max [] chunks = ((parser codec max).drain chunks.flatten).1 := by
  have hall := handed_append_dropped_nil codec max chunks
  obtain ⟨e, he, hiff, hlen⟩ := exists_lastEnd codec max chunks
  have hsame := (count_eq_iff (monotone_wholeFrames codec max chunks.flatten) _ _).mpr
    fun n hends => ⟨fun hn => hn.trans_le he, fun hn => (hiff n).mp (hahead n hn hends)⟩
  rw [hsame, wholeFrames, take_length, ← hall, length_append] at hlen
  have hnone : dropped codec max [] chunks = [] := length_eq_zero_iff.mp (by omega)
  rw [← hall, hnone, append_nil]

end Rskynet.Cluster
