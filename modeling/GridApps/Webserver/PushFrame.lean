import GridApps.Kettle.DeviceToken

/-! The frame that a device token and a payload are packed into for the push gateway, by the
server `freqNotifyTest.py` and by the script `Notify.py`. -/
namespace GridApps.Webserver
open Numeral Struct Kettle

namespace NotifyRequest

/-- The format `!cH32sH{0:d}s`, with the token as it was posted. -/
def POST (token : Text) (payload : Bytes) : Option Bytes :=
  Struct.pack [.c 0, .H token.length, .s 32 (ascii token), .H payload.length,
    .s payload.length payload]

end NotifyRequest

/-- `Notify.py`, for a token and a payload of its own choice. -/
def theNotification (deviceToken : Text) (data : Bytes) : Option Bytes :=
  (unhexlify (deviceToken.filter fun c => decide (c ≠ ' '))).bind fun byteToken =>
    Struct.pack [.B 0, .H 32, .s 32 byteToken, .H data.length, .s data.length data]

/-- A simple push frame. -/
structure Frame where
  command : UInt8
  token : Bytes
  payload : Bytes
  deriving DecidableEq, Repr

/-- The gateway's reading of a frame, with nothing left over. -/
def parseFrame : Bytes → Option Frame
  | [] => none
  | command :: bs =>
    (take16 bs).bind fun tokenLength =>
      (takeBytes tokenLength.1 tokenLength.2).bind fun token =>
        (take16 token.2).bind fun payloadLength =>
          (takeBytes payloadLength.1 payloadLength.2).bind fun payload =>
            if payload.2 = [] then some ⟨command, token.1, payload.1⟩ else none

/-- What the server makes of a registration of the device, from the token on the phone on. -/
def pushed (t : DeviceToken) (payload : Bytes) : Option Bytes :=
  (convertTokenToDeviceID t.bytes).bind fun token => NotifyRequest.POST token payload

/-- What the script would make of it. -/
def notified (t : DeviceToken) (payload : Bytes) : Option Bytes :=
  (convertTokenToDeviceID t.bytes).bind fun token => theNotification token payload

/-- The frame delivers the payload to the device. -/
def Delivers (frame : Bytes) (t : DeviceToken) (payload : Bytes) : Prop :=
  parseFrame frame = some ⟨0, t.bytes, payload⟩

theorem parseFrame_pack (token : Bytes) {payload : Bytes} (htoken : token.length < 0x10000)
    (hpayload : payload.length < 0x10000) (command : UInt8) :
    parseFrame (command :: (be16 token.length ++ (token ++ (be16 payload.length ++ payload)))) =
      some ⟨command, token, payload⟩ := by
  have hend := takeBytes_append payload []
  rw [List.append_nil] at hend
  rw [parseFrame, take16_be16 htoken, Option.bind_some, takeBytes_append, Option.bind_some,
    take16_be16 hpayload, Option.bind_some, hend, Option.bind_some, if_pos rfl]

/-- The token that is read has the length that is written in front of it. -/
theorem parseFrame_token_length {command : UInt8} {n : ℕ} (hn : n < 0x10000) {bs : Bytes}
    {frame : Frame} (h : parseFrame (command :: (be16 n ++ bs)) = some frame) :
    frame.token.length = n := by
  rw [parseFrame, take16_be16 hn, Option.bind_some] at h
  obtain ⟨token, htoken, h⟩ := Option.bind_eq_some_iff.mp h
  obtain ⟨payloadLength, -, h⟩ := Option.bind_eq_some_iff.mp h
  obtain ⟨payload, -, h⟩ := Option.bind_eq_some_iff.mp h
  split_ifs at h
  rw [← Option.some.inj h]
  exact takeBytes_length htoken

theorem pushed_eq (t : DeviceToken) {payload : Bytes} (h : payload.length < 0x10000) :
    pushed t payload = some (0 :: (be16 64 ++ (ascii ((hexlify t.bytes).take 32) ++
      (be16 payload.length ++ payload)))) := by
  have hlength : (hexlify t.bytes).length = 64 := by rw [hexlify_length, t.length_eq]
  have hslot : (ascii (hexlify t.bytes)).take 32 = ascii ((hexlify t.bytes).take 32) :=
    List.map_take.symm
  have hascii : (ascii (hexlify t.bytes)).length = 64 := by rw [ascii, List.length_map, hlength]
  rw [pushed, convertTokenToDeviceID_eq, Option.bind_some, NotifyRequest.POST]
  simp [Struct.pack, Field.pack, hlength, hascii, hslot, h]

theorem notified_eq (t : DeviceToken) {payload : Bytes} (h : payload.length < 0x10000) :
    notified t payload = some (0 :: (be16 32 ++ (t.bytes ++
      (be16 payload.length ++ payload)))) := by
  have hslot : t.bytes.take 32 = t.bytes := List.take_of_length_le t.length_eq.le
  rw [notified, convertTokenToDeviceID_eq, Option.bind_some, theNotification, filter_hexlify,
    unhexlify_hexlify, Option.bind_some]
  simp [Struct.pack, Field.pack, hslot, t.length_eq, h]

/-- The script's frame is read back as the token and the payload. -/
theorem notified_delivers (t : DeviceToken) {payload : Bytes} (h : payload.length < 0x10000) :
    ∃ frame, notified t payload = some frame ∧ Delivers frame t payload := by
  refine ⟨_, notified_eq t h, ?_⟩
  have hparse := parseFrame_pack t.bytes (by rw [t.length_eq]; decide) h 0
  rwa [t.length_eq] at hparse

/-- A token of zeros with an empty payload. -/
theorem notified_delivers_zeros :
    ∃ frame, notified ⟨List.replicate 32 0, rfl⟩ [] = some frame ∧
      Delivers frame ⟨List.replicate 32 0, rfl⟩ [] :=
  notified_delivers ⟨List.replicate 32 0, rfl⟩ (by decide)

theorem pushed_eq_none (t : DeviceToken) {payload : Bytes} (h : ¬ payload.length < 0x10000) :
    pushed t payload = none := by
  have hlength : (hexlify t.bytes).length = 64 := by rw [hexlify_length, t.length_eq]
  rw [pushed, convertTokenToDeviceID_eq, Option.bind_some, NotifyRequest.POST]
  simp [Struct.pack, Field.pack, hlength, h]

/-- The server's frame never delivers its payload to the device, and it is never the frame of
the script: it says 64 where the slot of the token has 32 bytes. -/
theorem pushed_never_delivers (t : DeviceToken) (payload : Bytes) :
    ¬ (∃ frame, pushed t payload = some frame ∧ Delivers frame t payload) ∧
      ¬ ∃ frame, pushed t payload = some frame ∧ notified t payload = some frame := by
  by_cases h : payload.length < 0x10000
  · rw [pushed_eq t h, notified_eq t h]
    constructor
    · rintro ⟨frame, hframe, hread⟩
      obtain rfl := Option.some.inj hframe
      have hlength := parseFrame_token_length (by decide) hread
      rw [t.length_eq] at hlength
      contradiction
    · rintro ⟨frame, hframe, hsame⟩
      obtain rfl := Option.some.inj hframe
      have hbyte := congrArg (fun bs : Option Bytes => bs.bind fun bs => bs[2]?) hsame
      simp [be16] at hbyte
  · simp [pushed_eq_none t h]

/-- A token of zeros with an empty payload is not delivered. -/
theorem pushed_delivers_fails : ¬ ∀ (t : DeviceToken) (payload : Bytes),
    payload.length ≤ 65535 → ∃ frame, pushed t payload = some frame ∧ Delivers frame t payload := by
  intro h
  obtain ⟨frame, hpushed, hread⟩ := h ⟨List.replicate 32 0, rfl⟩ [] (by decide)
  have hnone : (pushed ⟨List.replicate 32 0, rfl⟩ []).bind parseFrame = none := by decide
  rw [hpushed, Option.bind_some, hread] at hnone
  contradiction

end GridApps.Webserver
