import PingDelivery.Text.Blank
import PingDelivery.Uuid

/-! # Submission paths

A ping is sent to a path that names the application, the kind of document, the version of the path
scheme and the ping. The application's part is its id reduced to `slug`: letters and digits in
lower case, anything between them a single hyphen. -/

namespace PingDelivery.Submission

def schemaVersion : Nat := 1

def isDocumentChar (c : Char) : Bool := c.isLower || c.isDigit || c == '-' || c == '_'

/-- Document types become a segment of the path. -/
def IsDocumentType (s : String) : Prop :=
  s.toList ≠ [] ∧ s.toList.length ≤ 64 ∧ s.toList.all isDocumentChar = true

instance (s : String) : Decidable (IsDocumentType s) := by unfold IsDocumentType; infer_instance

/-- Letters and digits in lower case; other characters become hyphens, none behind another. -/
def squeeze : Bool → List Char → List Char
  | _, [] => []
  | afterHyphen, c :: r =>
    if c.isAlphanum then c.toLower :: squeeze false r
    else if afterHyphen then squeeze true r
    else '-' :: squeeze true r

def isHyphen (c : Char) : Bool := c == '-'

/-- Without the hyphens at either end. -/
def trimHyphens (s : List Char) : List Char :=
  ((s.dropWhile isHyphen).reverse.dropWhile isHyphen).reverse

def slugChars (s : List Char) : List Char := trimHyphens (squeeze false (Text.trim s))

def slug (applicationId : String) : String := String.ofList (slugChars applicationId.toList)

def path (applicationId documentType : String) (id : Uuid) : String :=
  "/submit/" ++ slug applicationId ++ "/" ++ documentType ++ "/" ++ toString schemaVersion ++
    "/" ++ id.text

end PingDelivery.Submission
