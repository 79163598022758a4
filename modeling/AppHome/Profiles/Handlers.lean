import AppHome.Profiles.Profile

/-!
# The endpoints of the profile

`GET` and `PUT /api/profile` by an authenticated user, whose own profile they are about.
-/

namespace AppHome.Profiles

open Interleave

/-- `ProfileResponse`; the texts of the id and of the time are left out. -/
structure ProfileResponse where
  userId : Uuid
  avatarUrl : Option String
  bio : Option String
  updatedAt : Instant

inductive ResponseBody where
  | profile (profile : ProfileResponse)
  | error (error : String)

structure HttpResponse where
  status : Nat
  body : ResponseBody

def errorResponse (status : Nat) (error : String) : HttpResponse := ⟨status, .error error⟩

def UserProfile.response (p : UserProfile) : ProfileResponse :=
  ⟨p.userId, p.avatarUrl.map (·.value), p.bio.map (·.value), p.updatedAt⟩

def getProfile (userId : Uuid) : UseCase UserProfile := do
  match ← findByUserId userId with
  | some profile => pure profile
  | none => throw (.notFound userId)

def getProfileHandler (userId : Uuid) : Prog Op Res HttpResponse :=
  (getProfile userId).run >>= fun
    | .ok profile => .ret ⟨200, .profile profile.response⟩
    | .error (.notFound _) => .ret (errorResponse 404 "Profile not found")
    | .error _ => .ret (errorResponse 500 "Internal server error")

def updateProfileHandler (userId : Uuid) (avatarUrl bio : Option String) :
    Prog Op Res HttpResponse :=
  (updateProfile userId avatarUrl bio).run >>= fun
    | .ok profile => .ret ⟨200, .profile profile.response⟩
    | .error (.invalidValue message) => .ret (errorResponse 400 message)
    | .error _ => .ret (errorResponse 500 "Internal server error")

end AppHome.Profiles
