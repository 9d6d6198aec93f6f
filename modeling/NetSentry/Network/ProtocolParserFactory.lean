import NetSentry.Network.DnsParser
import NetSentry.Network.HttpParser
import NetSentry.Network.TlsParser

/-!
# `ProtocolParserFactory`

The parsers an analyzer is made with, in the order it asks them.  C++ leaves open what happens after
an access outside a vector, so a parser's verdict on a packet on which it makes one is a parameter,
`undef`.
-/

namespace NetSentry.ProtocolParserFactory

/-- A parser whose verdict is that of `undef` where its checked version makes a faulty access. -/
def total (undef : ProtocolParser) (parse : PacketInfo → Checked (Option ProtocolData)) :
    ProtocolParser := fun packet => (parse packet).getD (undef packet)

/-- `ProtocolParserFactory::createAllParsers`. -/
def createAllParsers (undef : ProtocolParser) : List ProtocolParser :=
  [HttpParser.parse, DnsParser.parse, TlsParser.parse].map (total undef)

end NetSentry.ProtocolParserFactory
