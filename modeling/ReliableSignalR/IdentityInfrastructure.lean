import ReliableSignalR.DotNet

/-!
# Claims and the identity constants shared by the services

Only the claim types and values that some modelled function writes or reads are
listed. The name of a principal is the value of its first name claim.
-/
namespace ReliableSignalR.IdentityInfrastructure
open DotNet

structure Claim where
  type : String
  value : String
deriving DecidableEq, Repr

structure ClaimsPrincipal where
  claims : List Claim
deriving DecidableEq, Repr

namespace ClaimTypes

def name : String := "http://schemas.xmlsoap.org/ws/2005/05/identity/claims/name"
def nameIdentifier : String :=
  "http://schemas.xmlsoap.org/ws/2005/05/identity/claims/nameidentifier"
def authenticationMethod : String :=
  "http://schemas.microsoft.com/ws/2008/06/identity/claims/authenticationmethod"

end ClaimTypes

namespace IdentityConstants

def audienceClaimType : String := "aud"
def tokenExpiresOnClaimType : String := "TokenExpiresOn"
def authenticationMethod : String := "JwtToken"
def identityProviderClaimType : String :=
  "http://schemas.microsoft.com/accesscontrolservice/2010/07/claims/identityprovider"
def allowedAudienceCode : String := "aac"
def tokenDurationInMinutes : ℕ := 20

end IdentityConstants

/-- `Identity.Name`, which is null without a name claim. -/
def ClaimsPrincipal.name (user : ClaimsPrincipal) : Option String :=
  (user.claims.find? fun c => c.type == ClaimTypes.name).map Claim.value

/-- `int.Parse(Identity.Name)` -/
def ClaimsPrincipal.brokerId (user : ClaimsPrincipal) : Except Exception ℤ :=
  match user.name with
  | none => .error .argumentNullException
  | some name => intParse name

end ReliableSignalR.IdentityInfrastructure
