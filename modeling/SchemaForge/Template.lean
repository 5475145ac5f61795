import SchemaForge.Schema

/-!
# `SchemaForge.Template` — starter schemas

A catalogue of ready-made schemas, each with an identifier, a title and a one-line description. The
order of the catalogue is the order in which it is listed.
-/

namespace SchemaForge

/-- A starter schema. -/
structure Template where
  id : String
  title : String
  description : String
  schema : Schema

namespace Template

/-! ## Building blocks -/

/-- A field that must be present. -/
def must (name : String) (rules : Rules) (description : String) : Field where
  name := name
  description := some description
  rules := rules

/-- A field that may be absent. -/
def may (name : String) (rules : Rules) (description : String) : Field where
  name := name
  required := false
  description := some description
  rules := rules

/-- A field that may be absent or null. -/
def mayNull (name : String) (rules : Rules) (description : String) : Field :=
  { may name rules description with nullable := true }

/-- Text of a length between two bounds. -/
def between (min max : UInt32) : Rules := .string { min, max }

/-- Text of at most the given length. -/
def upTo (max : UInt32) : Rules := .string { max }

/-- Text of at least the given length. -/
def atLeast (min : UInt32) : Rules := .string { min }

/-- Text of exactly the given length. -/
def exactly (length : UInt32) : Rules := .string { length }

def uuid : Rules := .string { uuid := true }

def email : Rules := .string { email := true }

/-! ## The catalogue -/

def user : Template where
  id := "user"
  title := "User"
  description := "User account with profile information"
  schema := {
    name := "User"
    description := "User account with profile information"
    fields := [
      must "id" uuid "Unique identifier",
      must "email" email "Email address",
      must "name" (between 2 100) "Full name",
      must "username" (between 3 30) "Username",
      mayNull "age" (.number { min := Binary64.zero, max := Binary64.ofInt 150, int := true })
        "Age in years",
      must "isActive" .boolean "Whether the account is active",
      must "role" (.oneOf ["admin", "user", "guest"]) "Access role",
      must "createdAt" (.empty .date) "Creation timestamp"] }

def product : Template where
  id := "product"
  title := "Product"
  description := "E-commerce product with pricing and inventory"
  schema := {
    name := "Product"
    description := "E-commerce product with pricing and inventory"
    fields := [
      must "id" uuid "Unique identifier",
      must "name" (between 1 200) "Product name",
      mayNull "description" (upTo 2000) "Product description",
      must "price" (.number { min := Binary64.zero, nonnegative := true }) "Unit price",
      must "quantity" (.number { min := Binary64.zero, int := true, nonnegative := true })
        "Units in stock",
      must "sku" (between 1 50) "Stock keeping unit",
      must "category" (.oneOf ["electronics", "clothing", "food", "other"]) "Product category",
      may "tags" (.arrayOf .string) "Search tags",
      must "isAvailable" .boolean "Whether the product can be ordered"] }

def address : Template where
  id := "address"
  title := "Address"
  description := "Postal address"
  schema := {
    name := "Address"
    description := "Postal address"
    fields := [
      must "street" (between 1 200) "Street line",
      mayNull "street2" (upTo 100) "Second street line",
      must "city" (between 1 100) "City",
      must "state" (between 1 100) "State or region",
      must "postalCode" (between 3 20) "Postal code",
      must "country" (exactly 2) "ISO 3166-1 alpha-2 country code"] }

def apiResponse : Template where
  id := "api-response"
  title := "API Response"
  description := "Generic API response envelope"
  schema := {
    name := "ApiResponse"
    description := "Generic API response envelope"
    fields := [
      must "success" .boolean "Whether the request succeeded",
      mayNull "message" (upTo 500) "Human-readable message",
      mayNull "errorCode" (.empty .string) "Machine-readable error code",
      must "timestamp" (.empty .date) "Response time"] }

def blogPost : Template where
  id := "blog-post"
  title := "Blog Post"
  description := "Blog article with publishing metadata"
  schema := {
    name := "BlogPost"
    description := "Blog article with publishing metadata"
    fields := [
      must "id" uuid "Unique identifier",
      must "title" (between 1 200) "Post title",
      must "slug" (between 1 200) "URL slug",
      must "content" (atLeast 1) "Post body",
      mayNull "excerpt" (upTo 500) "Short summary",
      must "authorId" uuid "Author identifier",
      must "status" (.oneOf ["draft", "published", "archived"]) "Publishing status",
      may "tags" (.arrayOf .string) "Post tags",
      mayNull "publishedAt" (.empty .date) "Publication time",
      must "createdAt" (.empty .date) "Creation time"] }

def contactForm : Template where
  id := "contact-form"
  title := "Contact Form"
  description := "Contact form submission"
  schema := {
    name := "ContactForm"
    description := "Contact form submission"
    fields := [
      must "name" (between 2 100) "Sender name",
      must "email" email "Reply address",
      must "subject" (between 1 200) "Subject line",
      must "message" (between 10 5000) "Message body",
      mayNull "phone" (upTo 20) "Phone number"] }

def login : Template where
  id := "login"
  title := "Login"
  description := "Login credentials"
  schema := {
    name := "LoginCredentials"
    description := "Login credentials"
    fields := [
      must "email" email "Account email",
      must "password" (between 8 100) "Account password",
      may "rememberMe" .boolean "Keep the session alive"] }

def settings : Template where
  id := "settings"
  title := "Settings"
  description := "User preferences"
  schema := {
    name := "Settings"
    description := "User preferences"
    fields := [
      must "theme" (.oneOf ["light", "dark", "system"]) "Colour theme",
      must "language" (exactly 2) "ISO 639-1 language code",
      must "notifications" .boolean "Whether notifications are enabled",
      must "emailDigest" (.oneOf ["never", "daily", "weekly", "monthly"]) "Digest frequency",
      must "timezone" (between 1 50) "IANA timezone name"] }

/-- Every starter schema, in the order of the catalogue. -/
def all : List Template :=
  [user, product, address, apiResponse, blogPost, contactForm, login, settings]

/-- The identifiers, in the order of the catalogue. -/
def ids : List String := all.map Template.id

/-- The starter schema of an identifier. -/
def find? (id : String) : Option Template := all.find? fun template => template.id == id

end Template

end SchemaForge
