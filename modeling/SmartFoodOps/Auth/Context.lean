/-
smartfood-auth: claims, the context of a request, and the headers that carry it.

* `Role` — the closed role vocabulary;
* `Claims`, `issue` — what a token says, and who may mint one;
* `AuthContext`, `contextFromClaims` — an identity, which holds at least one role;
* `headersFor`, `getAuthContext` — the `X-Auth-*` headers, stamped and read back;
* `Text.strip`, `Text.split`, `Text.join`, `Headers.get` — the operations on text and
  headers that these use.

Of a token only the claims are modelled: signing and verifying are parameters elsewhere.
-/
import Mathlib.Data.Finset.Sort
import Mathlib.Data.String.Basic

namespace Auth

/-! ### Text -/

namespace Text

/-- What `str.strip` takes away. -/
def isSpace (c : Char) : Bool :=
  (9 ≤ c.toNat && c.toNat ≤ 13) || (28 ≤ c.toNat && c.toNat ≤ 32) ||
    c.toNat ∈ [0x85, 0xa0, 0x1680, 0x2028, 0x2029, 0x202f, 0x205f, 0x3000] ||
      (0x2000 ≤ c.toNat && c.toNat ≤ 0x200a)

def strip (s : String) : String :=
  String.ofList (((s.toList.dropWhile isSpace).reverse.dropWhile isSpace).reverse)

/-- `s.split(c)`. -/
def split (c : Char) (s : String) : List String := (s.toList.splitOn c).map String.ofList

/-- `c.join(l)`. -/
def join (c : Char) (l : List String) : String :=
  String.ofList ([c].intercalate (l.map String.toList))

/-- Visible ASCII. -/
def Visible (s : String) : Prop := ∀ c ∈ s.toList, 33 ≤ c.toNat ∧ c.toNat ≤ 126

instance (s : String) : Decidable (Visible s) :=
  List.decidableBAll _ s.toList

end Text

/-! ### Headers -/

/-- The headers of a request, in the order of the wire. -/
abbrev Headers := List (String × String)

/-- The first value under a name, in any case. -/
def Headers.get (hs : Headers) (name : String) : Option String :=
  (hs.find? fun h => h.1.toLower = name.toLower).map (·.2)

def hSub : String := "X-Auth-Sub"
def hRole : String := "X-Auth-Role"
def hRoles : String := "X-Auth-Roles"
def hRestaurant : String := "X-Auth-Restaurant-Id"
def hRider : String := "X-Auth-Rider-Id"

def stripHeaders : List String := [hSub, hRole, hRoles, hRestaurant, hRider]

/-! ### Roles and claims -/

inductive Role
  | customer
  | restaurantAdmin
  | rider
  | systemAdmin
  | system
  deriving DecidableEq

def Role.name : Role → String
  | customer => "customer"
  | restaurantAdmin => "restaurant_admin"
  | rider => "rider"
  | systemAdmin => "system_admin"
  | system => "system"

/-- `ROLES`. -/
def roleNames : Finset String :=
  {Role.customer.name, Role.restaurantAdmin.name, Role.rider.name, Role.systemAdmin.name,
    Role.system.name}

/-- What a token says about its subject. -/
structure Claims where
  sub : String
  roles : List String
  restaurantId : Option String
  riderId : Option String
  deriving DecidableEq

/-- `TokenIssuer.issue`; `none` is the ValueError of an unknown role. -/
def issue (sub : String) (roles : Finset String) (restaurantId riderId : Option String) :
    Option Claims :=
  if roles ⊆ roleNames then some ⟨sub, roles.sort (· ≤ ·), restaurantId, riderId⟩ else none

/-! ### Contexts -/

/-- An identity.  One that holds no role could pass no gate. -/
structure AuthContext where
  sub : String
  roles : Finset String
  restaurantId : Option String
  riderId : Option String
  held : roles.Nonempty

/-- `none` is the ValidationError of an empty role set. -/
def contextFromClaims (claims : Claims) : Option AuthContext :=
  if h : claims.roles.toFinset.Nonempty then
    some ⟨claims.sub, claims.roles.toFinset, claims.restaurantId, claims.riderId, h⟩
  else none

/-- A value that is there and not empty, under a name. -/
def stampIf (name : String) : Option String → Headers
  | none | some "" => []
  | some v => [(name, v)]

def headersFor (ctx : AuthContext) : Headers :=
  [(hSub, ctx.sub), (hRoles, Text.join ',' (ctx.roles.sort (· ≤ ·)))] ++
    stampIf hRestaurant ctx.restaurantId ++ stampIf hRider ctx.riderId

/-- `none` is MissingIdentity. -/
def getAuthContext (headers : Headers) : Option AuthContext :=
  let stamped := (headers.get hRoles).getD ""
  let held := (((Text.split ',' stamped).map Text.strip).filter (· ≠ "")).toFinset
  match headers.get hSub with
  | none | some "" => none
  | some sub =>
    if h : held.Nonempty ∧ held ⊆ roleNames then
      some ⟨sub, held, headers.get hRestaurant, headers.get hRider, h.1⟩
    else none

end Auth
