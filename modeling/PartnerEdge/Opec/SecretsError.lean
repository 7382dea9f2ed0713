import PartnerEdge.Text.Lines

/-!
# Errors of the secrets commands

The errors of `opec secrets`, without the texts that the libraries below supply.
-/

namespace PartnerEdge.Opec

open Text

inductive SecretsError where
  | partialIdentity (found missing : List Str)
  | invalidKeyFormat (path : Str) (actualLen : Nat)
  | io (path : Str)
  | http (status : Nat) (body : Str)
  | transport
  | missingResponseField (name : Str)
  | staleRegistry
  | responseParse (reason : Str)
  | invalidBranding (path reason : Str)
  | invalidResponseValue (name reason : Str)
deriving DecidableEq, Repr

end PartnerEdge.Opec
