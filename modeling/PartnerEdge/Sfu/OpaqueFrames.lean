import PartnerEdge.Sfu.BudgetScan

/-!
# Frames that are relayed unread

The frames of the channels `chat-data`, `voice` and `sframe-keys` are sealed by the clients, and the
server relays them as they are. One message is taken on every channel, though, before the label is
looked at: the announcement of a relay. This module says which payloads are taken for one, by where
the quoted words stand in the text, and that every other payload is relayed byte for byte.
-/

namespace PartnerEdge.Sfu

open Svc Text Json

/-! ## Texts and values -/

theorem stringAt_eq_some_iff {t w : Str} :
    stringAt t = some w ↔ ∃ after, t = quoted w ++ after ∧ '"' ∉ w := by
  constructor
  · intro h
    unfold stringAt at h
    split at h
    · obtain ⟨⟨_, after⟩, hsplit, rfl⟩ := Option.map_eq_some_iff.1 h
      obtain ⟨hclosed, rfl⟩ := splitOnce_eq_some_iff.1 hsplit
      exact ⟨after, by simp [quoted], hclosed⟩
    · cases h
  · rintro ⟨after, rfl, hclosed⟩
    simp [quoted, stringAt, splitOnce_append hclosed]

/-- Where a text gives a key the value `w`: the next colon after the first place where the key
stands in quotes is followed by `w` in quotes. -/
structure Gives (s key w : Str) (before between blanks after : Str) : Prop where
  text : s = before ++ quoted key ++ between ++ ':' :: blanks ++ quoted w ++ after
  first : ¬ quoted key <:+: before ++ (quoted key).dropLast
  colon : ':' ∉ between
  blank : ∀ c ∈ blanks, isWhitespace c = true
  closed : '"' ∉ w

theorem extractStrValue_eq_some_iff {s key w : Str} : extractStrValue s key = some w ↔
    ∃ before between blanks after, Gives s key w before between blanks after := by
  rw [extractStrValue_eq, afterColon_eq]
  constructor
  · intro h
    obtain ⟨t, hcolon, hstring⟩ := Option.bind_eq_some_iff.1 h
    obtain ⟨u, hkey, hpast⟩ := Option.bind_eq_some_iff.1 hcolon
    obtain ⟨before, htext, hfirst⟩ := (afterFirst_eq_some_iff (by simp [quoted])).1 hkey
    obtain ⟨⟨between, rest⟩, hsplit, rfl⟩ := Option.map_eq_some_iff.1 hpast
    obtain ⟨hnocolon, rfl⟩ := splitOnce_eq_some_iff.1 hsplit
    obtain ⟨after, hrest, hclosed⟩ := stringAt_eq_some_iff.1 hstring
    refine ⟨before, between, rest.takeWhile isWhitespace, after, ?_, hfirst, hnocolon,
      fun c => List.mem_takeWhile_imp, hclosed⟩
    have hjoin := List.takeWhile_append_dropWhile (p := isWhitespace) (l := rest)
    rw [hrest] at hjoin
    simp only [htext, List.append_assoc, List.cons_append, hjoin]
  · rintro ⟨before, between, blanks, after, rfl, hfirst, hcolon, hblank, hclosed⟩
    have hkey : afterFirst (quoted key)
          (before ++ quoted key ++ (between ++ ':' :: (blanks ++ (quoted w ++ after)))) =
        some (between ++ ':' :: (blanks ++ (quoted w ++ after))) :=
      (afterFirst_eq_some_iff (by simp [quoted])).2 ⟨before, rfl, hfirst⟩
    have hdrop : (quoted w ++ after).dropWhile isWhitespace = quoted w ++ after := rfl
    simp only [List.append_assoc, List.cons_append] at hkey ⊢
    rw [hkey, Option.bind_some, pastColon_append hcolon, List.dropWhile_append_of_pos hblank, hdrop,
      Option.bind_some, stringAt_eq_some_iff]
    exact ⟨after, rfl, hclosed⟩

/-! ## The sealed channels -/

inductive SealedChannel where
  | chatData
  | voice
  | sframeKeys
deriving DecidableEq, Repr

namespace SealedChannel

def label : SealedChannel → String
  | .chatData => "chat-data"
  | .voice => "voice"
  | .sframeKeys => "sframe-keys"

def maxBytes : SealedChannel → Nat
  | .chatData => chatFrameMaxBytes
  | .voice => voiceFrameMaxBytes
  | .sframeKeys => sframeKeysFrameMaxBytes

/-- The event that relays a frame of the channel. -/
def event (clientId : ClientId) (frame : List UInt8) : SealedChannel → Propagated
  | .chatData => .chatData clientId frame
  | .voice => .voiceData clientId frame
  | .sframeKeys => .keysData clientId frame

end SealedChannel

/-- The payload is a text that gives `type` the value `relay_source`. -/
def NamesRelaySource (data : List UInt8) : Prop :=
  ∃ s before between blanks after, data = toUtf8 s ∧
    Gives s "type".toList "relay_source".toList before between blanks after

theorem namesRelaySource_iff {data : List UInt8} : NamesRelaySource data ↔
    (fromUtf8 data).bind (extractStrValue · "type".toList) = some "relay_source".toList := by
  simp only [NamesRelaySource, Option.bind_eq_some_iff, fromUtf8_eq_some_iff,
    extractStrValue_eq_some_iff]
  grind

section Frames

variable (jwt : Jwt) (now : Nat) (auth : RelayAuth) (clientId : ClientId) (ch : SealedChannel)
  (data : List UInt8)

theorem handleChannelData_of_namesRelaySource {data : List UInt8} (h : NamesRelaySource data)
    (label : String) : handleChannelData jwt now auth clientId label data =
      relaySource jwt now auth clientId ((fromUtf8 data).getD []) := by
  rw [handleChannelData]
  exact if_pos (namesRelaySource_iff.1 h)

theorem handleChannelData_of_not_namesRelaySource {data : List UInt8}
    (h : ¬ NamesRelaySource data) : handleChannelData jwt now auth clientId ch.label data =
      opaqueFrame ch.maxBytes data (ch.event clientId) := by
  rw [namesRelaySource_iff] at h
  rw [handleChannelData]
  simp only [h, if_false]
  cases ch <;> rfl

/-- A payload within the size cap is relayed byte for byte unless it names a relay source. One that
does is no frame on any channel: all of them treat it as the same announcement. -/
theorem sealedFrame_relayed (hsize : data.length ≤ ch.maxBytes) :
    (¬ NamesRelaySource data →
      handleChannelData jwt now auth clientId ch.label data = ch.event clientId data) ∧
    (NamesRelaySource data →
      (∀ label, handleChannelData jwt now auth clientId label data =
        relaySource jwt now auth clientId ((fromUtf8 data).getD [])) ∧
      ∀ frame, handleChannelData jwt now auth clientId ch.label data ≠
        ch.event clientId frame) := by
  refine ⟨fun h => ?_, fun h => ⟨handleChannelData_of_namesRelaySource jwt now auth clientId h, ?_⟩⟩
  · rw [handleChannelData_of_not_namesRelaySource jwt now auth clientId ch h, opaqueFrame,
      if_neg hsize.not_gt]
  · intro frame
    rw [handleChannelData_of_namesRelaySource jwt now auth clientId h]
    rcases relaySource_eq jwt now auth clientId ((fromUtf8 data).getD []) with
      hsource | ⟨url, hsource⟩
    all_goals cases ch <;> simp [hsource, SealedChannel.event]

end Frames

/-- `{"type":"relay_source","upstreamUrl":"u"}` -/
def plainAnnouncement : List UInt8 :=
  toUtf8 "\x7b\"type\":\"relay_source\",\"upstreamUrl\":\"u\"\x7d".toList

def noCredentials : RelayAuth := ⟨none, none, true, ⟨[], [], false⟩⟩

def rejectingJwt : Jwt := ⟨fun _ => false, fun _ _ _ _ => .error .invalidSignature⟩

theorem sealedFrame_relayed_voice :
    ([1, 2, 3] : List UInt8).length ≤ SealedChannel.voice.maxBytes ∧
    handleChannelData rejectingJwt 0 noCredentials 1 "voice" [1, 2, 3] =
      .voiceData 1 [1, 2, 3] :=
  ⟨by decide, (sealedFrame_relayed rejectingJwt 0 noCredentials 1 .voice [1, 2, 3] (by decide)).1
    (mt namesRelaySource_iff.1 (by decide +kernel))⟩

/-- On the voice channel the announcement is a promotion, and with credentials it is dropped. -/
theorem voice_announcement :
    plainAnnouncement.length ≤ SealedChannel.voice.maxBytes ∧
    handleChannelData rejectingJwt 0 noCredentials 1 "voice" plainAnnouncement =
      .markRelaySource 1 "u".toList ∧
    handleChannelData rejectingJwt 0 { noCredentials with secret := some [] } 1 "voice"
      plainAnnouncement = .noop := by
  simp only [handleChannelData, plainAnnouncement, fromUtf8_toUtf8]
  decide +kernel

end PartnerEdge.Sfu
