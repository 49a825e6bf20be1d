import StoreModel.Schema.Registry

/-!
# A sample model

Two entities that between them use every kind of value, both kinds of sequences, the mark that turns
indexing off, a key of its own and a field that is not stored. A third one is not registered; its
two stored fields have the names of each other.
-/

set_option autoImplicit false

namespace StoreModel.Sample

/-- An exported field with a tag. -/
def stored (name tag : String) (shape : Shape) : Field := { name, tag := some tag, shape }

/-- People who use the program. -/
def user : Entity :=
  { typeName := "User"
    fields := [
      stored "name" "name" .string,
      stored "email" "email" .string,
      stored "is_admin" "admin" .bool,
      stored "login_count" "logins" .i64,
      stored "score" "score,noindex" .f64,
      stored "created" "created" .timestamp,
      stored "avatar" "avatar" .bytes,
      stored "token" "token" .byteString,
      stored "aliases" "aliases" (.seq .string),
      { name := "session", exported := false, shape := .unsupported "Option<String>" }] }

/-- What they work on. -/
def project : Entity :=
  { typeName := "Project"
    fields := [
      stored "title" "title" .string,
      stored "owner" "owner" .string,
      stored "labels" "labels,noindex" (.seq .string),
      stored "attachments" "attachments" (.seq .bytes)] }

/-- Both entities under their keys. -/
def registry : Registry := (Registry.insert {} "User" user).insert "Proj" project

/-- What they write, stored crosswise. -/
def crossed : Entity :=
  { typeName := "Post"
    fields := [
      stored "title" "tags" .string,
      stored "tags" " title ,noindex" (.seq .string),
      { name := "cache", exported := false, shape := .unsupported "Option<String>" }] }

end StoreModel.Sample
