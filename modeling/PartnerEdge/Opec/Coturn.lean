import PartnerEdge.Text.Template
import PartnerEdge.Text.Terminated
import PartnerEdge.Text.Slices

/-!
# The coturn configuration of a relay node

The secrets of a node are read from a file of their own, put into a template in place of a
placeholder, and the variables of the template are filled in. Before the result is written, its
secret lines are counted and a realm is looked for.
-/

namespace PartnerEdge.Opec

open Text

inductive RenderError where
  | secretFile (reason : Str)
  | srcMissing
  | dstDirMissing
  | unreadableTemplate
  | validation (reason : Str)
  | unwritable
deriving DecidableEq, Repr

/-! ## The secret file -/

/-- A file as it is found: whether it can be opened without following a link and be examined, and if
its text can be read. -/
structure SecretFile where
  opens : Bool
  stats : Bool
  isFile : Bool
  mode : Nat
  nlink : Nat
  uid : Nat
  text : Option Str
deriving DecidableEq, Repr

def secretLen : Nat := 43

def maxSecrets : Nat := 2

def isB64url (c : Char) : Bool := c.isAlphanum || c == '_' || c == '-'

def pushSecret (out : List Str) (line : Str × Nat) : Except Str (List Str) :=
  if byteLen line.1 ≠ secretLen || !line.1.all isB64url then
    .error ("line ".toList ++ Nat.toDigits 10 (line.2 + 1) ++
      " is not exactly 43 chars of [A-Za-z0-9_-]".toList)
  else if out.contains line.1 then
    .error ("line ".toList ++ Nat.toDigits 10 (line.2 + 1) ++ " duplicates an earlier line".toList)
  else .ok (out ++ [line.1])

/-- `text.strip_suffix('\n').unwrap_or(text)` -/
def stripNewline (text : Str) : Str := if text.getLast? = some '\n' then text.dropLast else text

def parseSecrets (text : Str) : Except Str (List Str) :=
  let body := stripNewline text
  if body.isEmpty then .error "empty".toList
  else if (lines body).length > maxSecrets then
    .error (Nat.toDigits 10 (lines body).length ++ " lines, at most 2 allowed".toList)
  else (lines body).zipIdx.foldlM pushSecret []

def readNodeSecrets (euid : Nat) (file : SecretFile) : Except RenderError (List Str) :=
  if !file.opens then .error (.secretFile "cannot open".toList)
  else if !file.stats then .error (.secretFile "cannot stat".toList)
  else if !file.isFile then .error (.secretFile "not a regular file".toList)
  else if file.mode % 0o10000 ≠ 0o600 then
    .error (.secretFile ("mode ".toList ++ Nat.toDigits 8 (file.mode % 0o10000) ++
      ", want 600".toList))
  else if file.nlink ≠ 1 then
    .error (.secretFile (Nat.toDigits 10 file.nlink ++ " hard links, want 1".toList))
  else if file.uid ≠ euid then
    .error (.secretFile ("owner uid ".toList ++ Nat.toDigits 10 file.uid ++ ", want ".toList ++
      Nat.toDigits 10 euid))
  else match file.text with
    | none => .error (.secretFile "unreadable or not UTF-8".toList)
    | some text => (parseSecrets text).mapError .secretFile

def secretKey : Str := "static-auth-secret=".toList

def secretLines (secrets : List Str) : Str := secrets.flatMap fun s => secretKey ++ s ++ ['\n']

/-! ## Rendering -/

/-- What a rendering finds: the template, if it is a file and can be read, the directory of the
destination, and the environment. -/
structure Site where
  src : Option (Option Str)
  dstDir : Bool
  env : Str → Option Str
  euid : Nat
  persists : Bool

def secretLinesPlaceholder : Str := "\x7b\x7bSTATIC_AUTH_SECRET_LINES\x7d\x7d".toList

/-- `std::env::var(name).unwrap_or_default()` -/
def Site.value (site : Site) (name : Str) : Str := (site.env name).getD []

def renderStringPre (site : Site) (pre : Str → Str) : Except RenderError Str :=
  match site.src with
  | none => .error .srcMissing
  | some tpl =>
    if !site.dstDir then .error .dstDirMissing
    else match tpl with
      | none => .error .unreadableTemplate
      | some tpl => .ok (substitute site.value (pre tpl))

def trimEndNewlines (s : Str) : Str := (s.reverse.dropWhile (· == '\n')).reverse

def isSecretLine (line : Str) : Bool := secretKey.isPrefixOf line

def isRealmLine (line : Str) : Bool :=
  "realm=".toList.isPrefixOf (line.dropWhile isWhitespace) &&
    !(trim ((line.dropWhile isWhitespace).drop 6)).isEmpty

def checkRealm (rendered : Str) : Except RenderError Unit :=
  if (strLines rendered).any isRealmLine then .ok ()
  else .error (.validation
    "rendered coturn.conf has empty or missing \x60realm=\x60 directive".toList)

def checkCount (rendered : Str) (expected : Nat) : Except RenderError Unit :=
  let got := ((strLines rendered).filter isSecretLine).length
  if got ≠ expected then
    .error (.validation ("rendered ".toList ++ Nat.toDigits 10 got ++
      " static-auth-secret line(s), expected ".toList ++ Nat.toDigits 10 expected ++
      " (template lacks the secret-lines placeholder?)".toList))
  else .ok ()

/-- What a rendering returned, and the new content of the destination if it has one. -/
structure Rendering where
  result : Except RenderError Unit
  written : Option Str
deriving DecidableEq

def writeAtomic (site : Site) (rendered : Str) : Rendering :=
  if site.persists then ⟨.ok (), some rendered⟩ else ⟨.error .unwritable, none⟩

/-- The text that is to be written, once it has passed the checks. -/
def renderChecked (site : Site) (file : SecretFile) : Except RenderError Str := do
  let secrets ← readNodeSecrets site.euid file
  let rendered ← renderStringPre site
    (replaceText secretLinesPlaceholder (trimEndNewlines (secretLines secrets)))
  checkCount rendered secrets.length
  checkRealm rendered
  return rendered

def renderWithSecretFile (site : Site) (file : SecretFile) : Rendering :=
  match renderChecked site file with
  | .error e => ⟨.error e, none⟩
  | .ok rendered => writeAtomic site rendered

end PartnerEdge.Opec
