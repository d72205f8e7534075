import SwiftRpc.Text.Basic

/-!
# The client template

The text of a client with slots for what differs between services. Slots are written as markers
between doubled braces and are filled one after the other, so a marker in a value that was filled in
earlier is filled as well.
-/

namespace SwiftRpc.Swift

open SwiftRpc.Text

inductive Slot where
  | serviceType | serviceFullName | methods
deriving DecidableEq

/-- In the order of filling. -/
def Slot.all : List Slot := [.serviceType, .serviceFullName, .methods]

def Slot.marker : Slot → String
  | .serviceType => "\x7b\x7bSERVICE_TYPE\x7d\x7d"
  | .serviceFullName => "\x7b\x7bSERVICE_FULL_NAME\x7d\x7d"
  | .methods => "\x7b\x7bMETHODS\x7d\x7d"

inductive Segment where
  | text (s : String)
  | slot (s : Slot)
deriving DecidableEq

abbrev Template := List Segment

namespace Template

/-- The template as it is written, with its markers. -/
def source (t : Template) : String :=
  String.join <| t.map fun
    | .text s => s
    | .slot s => s.marker

def fill (t : Template) (values : Slot → String) : String :=
  Slot.all.foldl (fun text s => replaceAll s.marker (values s) text) t.source

end Template

def clientTemplate : Template :=
  [.text "public struct ",
    .slot .serviceType,
    .text <|
      " \x7b\n" ++
      "    private let httpClient: HTTPClient\n" ++
      "    public let apiKey: String\n" ++
      "    public let hostname: String\n" ++
      "    public let token: String\n" ++
      "\n" ++
      "    public let pathPrefix: String = \"/twirp/",
    .slot .serviceFullName,
    .text <|
      "/\"\n" ++
      "\n" ++
      "    public init(httpClient: HTTPClient, apiKey: String, hostname: String, token: String) \x7b\n" ++
      "        self.httpClient = httpClient\n" ++
      "        self.apiKey = apiKey\n" ++
      "        self.hostname = hostname\n" ++
      "        self.token = token\n" ++
      "    \x7d\n",
    .slot .methods,
    .text <|
      "\n" ++
      "    private func execute<Request: Encodable, Response: Decodable>" ++
        "(request: Request, path: String) async throws -> Response \x7b\n" ++
      "        let requestData = try JSONEncoder().encode(request)\n" ++
      "        var urlRequest = try makeRequest(for: path)\n" ++
      "        urlRequest.httpBody = requestData\n" ++
      "        let responseData = try await httpClient.execute(request: urlRequest)\n" ++
      "        return try JSONDecoder().decode(Response.self, from: responseData)\n" ++
      "    \x7d\n" ++
      "\n" ++
      "    private func makeRequest(for path: String) throws -> URLRequest \x7b\n" ++
      "        guard let url = URL(string: hostname + pathPrefix + path + \"?api_key=\" + apiKey) else \x7b\n" ++
      "            throw URLError(.badURL)\n" ++
      "        \x7d\n" ++
      "        var request = URLRequest(url: url)\n" ++
      "        request.setValue(\"application/json\", forHTTPHeaderField: \"Content-Type\")\n" ++
      "        request.setValue(token, forHTTPHeaderField: \"Authorization\")\n" ++
      "        request.httpMethod = \"POST\"\n" ++
      "        return request\n" ++
      "    \x7d\n" ++
      "\x7d\n"]

end SwiftRpc.Swift
