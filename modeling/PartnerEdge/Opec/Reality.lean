import PartnerEdge.Machine.Run
import PartnerEdge.Opec.SecretsError
import PartnerEdge.PartnerCli.Base64Url
import PartnerEdge.Text.Terminated

/-!
# The Reality identity

Runs of `reality-keygen` in one directory. The private key, the public key and the UUID are written
one after the other, each atomically, and the process can die in between. A later run without
`--rotate` takes over what it finds if the three files are there, without comparing the keys. The
keys match whenever a run returns, unless a rotation of a complete identity dies between the two
keys.
-/

namespace PartnerEdge.Opec

open Text PartnerCli

abbrev Key := { bytes : List UInt8 // bytes.length = 32 }

inductive IdentityFile where
  | priv
  | pub
  | uuid
deriving DecidableEq, Repr

def IdentityFile.name : IdentityFile → Str
  | .priv => "reality.priv".toList
  | .pub => "reality.pub".toList
  | .uuid => "reality.uuid".toList

def identityFiles : List IdentityFile := [.priv, .pub, .uuid]

/-- The identity files of the directory, with their contents. -/
abbrev Dir := IdentityFile → Option Str

def realityKeyLen : Nat := 43

/-- One run of the command: its flag, the random values it draws, and after how many writes it dies,
if it does. -/
structure Invocation where
  rotate : Bool
  secret : Key
  uuid : Str
  crash : Option Nat

/-- What a run does once it has looked at the directory. -/
inductive Plan where
  | stop (result : Except SecretsError Unit)
  | write (files : List (IdentityFile × Str))

section Keygen

variable (publicKey : Key → Key) (parsesUuid : Str → Bool)

def keygenX25519 (secret : Key) : Str × Str :=
  (base64UrlEncode secret.1, base64UrlEncode (publicKey secret).1)

def validateKey (dir : Dir) (file : IdentityFile) : Except SecretsError Unit :=
  match dir file with
  | none => .error (.io file.name)
  | some content =>
    if byteLen (trim content) ≠ realityKeyLen then
      .error (.invalidKeyFormat file.name (byteLen (trim content)))
    else .ok ()

def validateExisting (dir : Dir) : Except SecretsError Unit := do
  validateKey dir .priv
  validateKey dir .pub
  match dir .uuid with
  | none => .error (.io IdentityFile.uuid.name)
  | some content =>
    if parsesUuid (trim content) then .ok ()
    else .error (.invalidKeyFormat IdentityFile.uuid.name (byteLen (trim content)))

/-- The files of a new identity, unless a key has the wrong length. -/
def freshIdentity (i : Invocation) : Plan :=
  let (privKey, pubKey) := keygenX25519 publicKey i.secret
  if byteLen privKey ≠ realityKeyLen then
    .stop (.error (.invalidKeyFormat IdentityFile.priv.name (byteLen privKey)))
  else if byteLen pubKey ≠ realityKeyLen then
    .stop (.error (.invalidKeyFormat IdentityFile.pub.name (byteLen pubKey)))
  else .write [(.priv, privKey ++ ['\n']), (.pub, pubKey ++ ['\n']), (.uuid, i.uuid ++ ['\n'])]

def plan (dir : Dir) (i : Invocation) : Plan :=
  let present := identityFiles.filter fun f => (dir f).isSome
  if i.rotate then freshIdentity publicKey i
  else match present.length with
    | 3 => .stop (validateExisting parsesUuid dir)
    | 0 => freshIdentity publicKey i
    | _ => .stop (.error (.partialIdentity (present.map IdentityFile.name)
        ((identityFiles.filter fun f => !present.contains f).map IdentityFile.name)))

def writeFiles (dir : Dir) (files : List (IdentityFile × Str)) : Dir :=
  files.foldl (fun dir f => Function.update dir f.1 (some f.2)) dir

/-- A run that dies returns nothing. -/
def keygen : Machine Dir Invocation (Option (Except SecretsError Unit)) where
  step dir i :=
    match plan publicKey parsesUuid dir i, i.crash with
    | .stop result, none => (dir, some result)
    | .stop _, some _ => (dir, none)
    | .write files, none => (writeFiles dir files, some (.ok ()))
    | .write files, some n => (writeFiles dir (files.take n), none)

def emptyDir : Dir := fun _ => none

/-- The key in a file. -/
def keyIn (dir : Dir) (file : IdentityFile) : Option Key :=
  (dir file).bind fun content =>
    match base64UrlDecode (trim content) with
    | .ok bytes => if h : bytes.length = 32 then some ⟨bytes, h⟩ else none
    | .error _ => none

/-- The public key is that of the private key. -/
def Matched (dir : Dir) : Prop :=
  (keyIn dir .priv).isSome = true ∧ keyIn dir .pub = (keyIn dir .priv).map publicKey

/-- The run replaces a private key and dies before it replaces the public key of a complete
identity. -/
def Torn (dir : Dir) (i : Invocation) : Prop :=
  i.rotate = true ∧ i.crash = some 1 ∧ (dir .pub).isSome = true ∧ (dir .uuid).isSome = true

/-- What runs keep: a public key with a UUID has its private key. -/
def MatchedIfComplete (dir : Dir) : Prop :=
  (dir .pub).isSome = true → (dir .uuid).isSome = true → Matched publicKey dir

variable {publicKey parsesUuid} {dir : Dir} {i : Invocation}

theorem trim_base64UrlEncode (bytes : List UInt8) :
    trim (base64UrlEncode bytes ++ ['\n']) = base64UrlEncode bytes := by
  rw [trim_concat _ (by decide), trim_eq_self]
  intro c hc
  have hsafe := (base64UrlDecode_encode bytes).1 c hc
  simp only [isUrlSafe, Bool.or_eq_true, beq_iff_eq] at hsafe
  rcases hsafe with (halnum | rfl) | rfl
  · exact isWhitespace_of_isAlphanum halnum
  · decide
  · decide

theorem byteLen_base64UrlEncode (key : Key) : byteLen (base64UrlEncode key.1) = realityKeyLen := by
  obtain ⟨hsafe, hlength, -⟩ := base64UrlDecode_encode key.1
  rw [byteLen_of_ascii fun c hc => toNat_lt_of_isUrlSafe (hsafe c hc), hlength, key.2]
  rfl

theorem freshIdentity_eq (i : Invocation) : freshIdentity publicKey i =
    .write [(.priv, base64UrlEncode i.secret.1 ++ ['\n']),
      (.pub, base64UrlEncode (publicKey i.secret).1 ++ ['\n']), (.uuid, i.uuid ++ ['\n'])] := by
  simp [freshIdentity, keygenX25519, byteLen_base64UrlEncode]

theorem keyIn_of_eq {file : IdentityFile} {key : Key}
    (h : dir file = some (base64UrlEncode key.1 ++ ['\n'])) : keyIn dir file = some key := by
  rw [keyIn, h, Option.bind_some, trim_base64UrlEncode, (base64UrlDecode_encode key.1).2.2]
  exact dif_pos key.2

theorem matched_of_eq (key : Key) (hpriv : dir .priv = some (base64UrlEncode key.1 ++ ['\n']))
    (hpub : dir .pub = some (base64UrlEncode (publicKey key).1 ++ ['\n'])) :
    Matched publicKey dir := by
  simp [Matched, keyIn_of_eq hpriv, keyIn_of_eq hpub]

/-- A run stops where the three files are there, or some of them, and else writes a new identity. -/
theorem plan_cases (publicKey : Key → Key) (parsesUuid : Str → Bool) (dir : Dir) (i : Invocation) :
    (∃ result, plan publicKey parsesUuid dir i = .stop result ∧
      (result = .ok () → (dir .pub).isSome = true ∧ (dir .uuid).isSome = true)) ∨
    plan publicKey parsesUuid dir i = freshIdentity publicKey i ∧
      (i.rotate = true ∨ dir .pub = none) := by
  cases hrotate : i.rotate with
  | true =>
    refine .inr ⟨?_, .inl rfl⟩
    rw [plan, hrotate]
    rfl
  | false =>
    unfold plan
    rw [hrotate]
    cases hpriv : dir .priv <;> cases hpub : dir .pub <;> cases huuid : dir .uuid <;>
      simp [identityFiles, hpriv, hpub, huuid]

theorem matchedIfComplete_writeFiles (n : Nat) (h : MatchedIfComplete publicKey dir)
    (hn : n = 1 → (dir .pub).isSome = true → (dir .uuid).isSome = false) (key : Key) (uuid : Str) :
    MatchedIfComplete publicKey (writeFiles dir
      ([(.priv, base64UrlEncode key.1 ++ ['\n']),
        (.pub, base64UrlEncode (publicKey key).1 ++ ['\n']), (.uuid, uuid)].take n)) := by
  rcases n with _ | _ | n
  · exact h
  · intro hpub huuid
    have hnone := hn rfl (by simpa [writeFiles] using hpub)
    simp [writeFiles, hnone] at huuid
  · intro _ _
    rcases n with _ | n <;> exact matched_of_eq key (by simp [writeFiles]) (by simp [writeFiles])

theorem keygen_step (h : MatchedIfComplete publicKey dir) (htorn : ¬Torn dir i) :
    MatchedIfComplete publicKey ((keygen publicKey parsesUuid).step dir i).1 ∧
      (((keygen publicKey parsesUuid).step dir i).2 = some (.ok ()) →
        Matched publicKey ((keygen publicKey parsesUuid).step dir i).1) := by
  unfold keygen
  dsimp only
  rcases plan_cases publicKey parsesUuid dir i with ⟨result, hplan, hresult⟩ | ⟨hplan, hwhen⟩
  · rw [hplan]
    cases i.crash with
    | none =>
      refine ⟨h, fun hok => ?_⟩
      obtain ⟨hpub, huuid⟩ := hresult (Option.some.inj hok)
      exact h hpub huuid
    | some n => exact ⟨h, fun hok => by cases hok⟩
  · rw [hplan, freshIdentity_eq]
    cases hcrash : i.crash with
    | none =>
      have hnew := matchedIfComplete_writeFiles 3 h (by simp) i.secret
        (i.uuid ++ ['\n'])
      exact ⟨hnew, fun _ => hnew (by simp [writeFiles]) (by simp [writeFiles])⟩
    | some n =>
      refine ⟨matchedIfComplete_writeFiles n h ?_ i.secret _, fun hok => by cases hok⟩
      rintro rfl hpub
      by_contra huuid
      rcases hwhen with hrotate | hnone
      · exact htorn ⟨hrotate, hcrash, hpub, Bool.eq_true_of_not_eq_false huuid⟩
      · simp [hnone] at hpub

end Keygen

/-- As long as no rotation dies between the two keys, a run that succeeds leaves matching keys. -/
theorem keys_match_of_not_torn (publicKey : Key → Key) (parsesUuid : Str → Bool)
    (is : List Invocation) (i : Invocation)
    (h : (keygen publicKey parsesUuid).Allowed (fun dir i => ¬Torn dir i) emptyDir (is ++ [i]))
    (hok : ((keygen publicKey parsesUuid).step
      ((keygen publicKey parsesUuid).run emptyDir is) i).2 =
      some (.ok ())) :
    Matched publicKey ((keygen publicKey parsesUuid).run emptyDir (is ++ [i])) := by
  obtain ⟨hbefore, hlast, -⟩ := Machine.allowed_append.1 h
  have hempty : MatchedIfComplete publicKey emptyDir := fun hpub => by cases hpub
  have hinvariant : MatchedIfComplete publicKey ((keygen publicKey parsesUuid).run emptyDir is) :=
    Machine.run_of_allowed (I := MatchedIfComplete publicKey)
      (fun _ _ hdir hi => (keygen_step hdir hi).1) hempty hbefore
  rw [Machine.run_append]
  exact (keygen_step hinvariant hlast).2 hok

section Examples

def keyOf (b : UInt8) : Key := ⟨List.replicate 32 b, List.length_replicate⟩

/-- A new identity, a rotation of it that dies after so many writes, and a run that takes over what
it finds. -/
def interrupted (writes : Nat) : List Invocation :=
  [⟨false, keyOf 1, "u1".toList, none⟩, ⟨true, keyOf 2, "u2".toList, some writes⟩]

def reusing : Invocation := ⟨false, keyOf 3, "u3".toList, none⟩

theorem keys_match_after_second_write :
    Matched id ((keygen id fun _ => true).run emptyDir (interrupted 2 ++ [reusing])) := by
  refine keys_match_of_not_torn id (fun _ => true) (interrupted 2) reusing ?_ (by decide +kernel)
  exact ⟨by simp [Torn], by simp [Torn], by simp [Torn, reusing], trivial⟩

/-- The run returns `Ok`, and the two keys are those of different identities. -/
theorem torn_rotation_reused :
    ((keygen id fun _ => true).step ((keygen id fun _ => true).run emptyDir (interrupted 1))
      reusing).2 = some (.ok ()) ∧
    ¬Matched id ((keygen id fun _ => true).run emptyDir (interrupted 1 ++ [reusing])) := by
  unfold Matched
  decide +kernel

end Examples

end PartnerEdge.Opec
